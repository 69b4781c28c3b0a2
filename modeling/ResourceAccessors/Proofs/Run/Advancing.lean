import ResourceAccessors.Proofs.Run.Transcript

/-! The progress of runs. Whoever follows a run that returns hears of each file when it is done and
once of the end, with a count that only grows, up to a total that never changes. -/
namespace ResourceAccessors
set_option autoImplicit false

open ResourceAccessors.Action

namespace Progress

/-- What an update says without words: how many files are done, of how many, and how it goes. -/
def mark (u : Progress) : Int × Int × Progress.Status :=
  (u.completed, u.total, u.status)

/-- The marks of a run: one for each file, and one for its end. -/
def marks (n : Nat) (succeeded : Bool) : List (Int × Int × Progress.Status) :=
  (List.range n).map (fun (i : Nat) => ((i : Int) + 1, (n : Int), .running)) ++
    [((n : Int), (n : Int), if succeeded then .done else .failed)]

/-- Updates that only ever go forward, to one end. -/
structure Advances (total : Nat) (succeeded : Bool) (updates : List Progress) : Prop where
  growing : updates.Pairwise fun u v => u.completed ≤ v.completed
  bounded : ∀ u ∈ updates, u.completed ≤ u.total
  constant : ∀ u ∈ updates, u.total = total
  ending : ∃ before last, updates = before ++ [last] ∧ (∀ u ∈ before, u.isFinal = false) ∧
    last.isFinal = true ∧ (last.status = .done ↔ succeeded = true)

theorem mem_marks {n : Nat} {succeeded : Bool} {m : Int × Int × Progress.Status}
    (hm : m ∈ marks n succeeded) : 0 ≤ m.1 ∧ m.1 ≤ n ∧ m.2.1 = n := by
  rcases List.mem_append.1 hm with hrunning | hlast
  · obtain ⟨i, hi, rfl⟩ := List.mem_map.1 hrunning
    have hlt := List.mem_range.1 hi
    refine ⟨?_, ?_, rfl⟩ <;> simp only <;> omega
  · rw [List.mem_singleton.1 hlast]
    exact ⟨Int.natCast_nonneg n, Int.le_refl _, rfl⟩

theorem advances_of_marks {n : Nat} {succeeded : Bool} {updates : List Progress}
    (h : updates.map mark = marks n succeeded) : Advances n succeeded updates := by
  have hmem : ∀ u ∈ updates, u.mark ∈ marks n succeeded := by
    intro u hu
    rw [← h]
    exact List.mem_map_of_mem hu
  refine ⟨?_, ?_, fun u hu => (mem_marks (hmem u hu)).2.2, ?_⟩
  · have hmarks : (marks n succeeded).Pairwise fun a b => a.1 ≤ b.1 := by
      refine List.pairwise_append.2 ⟨?_, List.pairwise_singleton .., ?_⟩
      · refine List.pairwise_map.2 (List.pairwise_lt_range.imp ?_)
        intro i j hij
        simp only
        omega
      · intro a ha b hb
        obtain ⟨i, hi, rfl⟩ := List.mem_map.1 ha
        have hlt := List.mem_range.1 hi
        rw [List.mem_singleton.1 hb]
        simp only
        omega
    rw [← h, List.pairwise_map] at hmarks
    exact hmarks
  · intro u hu
    obtain ⟨-, hle, htotal⟩ := mem_marks (hmem u hu)
    exact Int.le_trans hle (Int.le_of_eq htotal.symm)
  · obtain ⟨before, rest, hsplit, hbefore, hrest⟩ := List.map_eq_append_iff.1 h
    obtain ⟨last, more, hcons, hlast, hmore⟩ := List.map_eq_cons_iff.1 hrest
    rw [List.map_eq_nil_iff] at hmore
    subst hmore hcons hsplit
    have hstatus : last.status = if succeeded then .done else .failed :=
      congrArg (fun m => m.2.2) hlast
    refine ⟨before, last, rfl, ?_, ?_, ?_⟩
    · intro u hu
      have hmark : u.mark ∈ before.map mark := List.mem_map_of_mem hu
      rw [hbefore] at hmark
      obtain ⟨i, -, hi⟩ := List.mem_map.1 hmark
      have hrunning : .running = u.status := congrArg (fun m => m.2.2) hi
      rw [isFinal, ← hrunning]
      rfl
    · rw [isFinal, hstatus]
      cases succeeded <;> rfl
    · rw [hstatus]
      cases succeeded <;> simp

end Progress

namespace Run

variable {settings : Settings} {converter : Converter} {base : Option Path} {fs after : FileSystem}
  {os : List Outcome} {root : Path} {summary : Summary} {events : List Event}

theorem updates_of_closing (hear : Listener) (total : Nat) (summary : Summary) :
    (closing (some hear) total summary).filterMap Event.update? = [finalUpdate total summary] := by
  unfold closing
  split <;> rfl

theorem failed_recorded_eq_zero_iff (root : Path) (os : List Outcome) :
    (Summary.recorded root os).failed = 0 ↔ os.any (·.status = .failed) = false := by
  rw [Summary.recorded_eq, List.countP_eq_zero, List.any_eq_false]

theorem succeeded_concluded (root : Path) (os : List Outcome) :
    (concluded (Summary.recorded root os)).succeeded = !os.any (·.status = .failed) := by
  rw [concluded_recorded]
  simp only [failed_recorded_eq_zero_iff]
  cases os.any (·.status = .failed) <;> rfl

theorem mark_finalUpdate (root : Path) (os : List Outcome) :
    (finalUpdate os.length (Summary.recorded root os)).mark =
      ((os.length : Int), (os.length : Int),
        if !os.any (·.status = .failed) then .done else .failed) := by
  have hfailed := failed_recorded_eq_zero_iff root os
  have hprocessed : (Summary.recorded root os).processed = os.length := by
    rw [Summary.recorded_eq]
  unfold finalUpdate
  rw [hprocessed]
  cases os with
  | nil => rfl
  | cons o os =>
    rw [if_pos (List.length_pos_iff.2 (List.cons_ne_nil o os))]
    simp only [lastUpdate, Progress.mark, hfailed]
    cases (o :: os).any (·.status = .failed) <;> rfl

/-- What the listener of a run hears: an update for each file, and one at the end. -/
theorem updates_of_run {hear : Listener}
    (h : (run settings converter (some hear) base).run fs = ⟨.ok summary, after, events⟩)
    (hthere : summary.rootMissing = false) :
    ∃ sources, Scan.run fs (rootOf settings base fs) settings.patterns.texts settings.recursive =
        .ok sources ∧
      summary.outcomes.length = sources.length ∧
      summary.succeeded = !summary.outcomes.any (·.status = .failed) ∧
      Log.updates events =
        summary.outcomes.mapIdx (fun i o => fileUpdate (i + 1) sources.length o) ++
          [finalUpdate sources.length (Summary.recorded summary.root summary.outcomes)] := by
  obtain ⟨sources, os, mid, loop, hf, rfl, htold, rfl⟩ := events_of_run h hthere
  have hroot : (concluded (Summary.recorded (rootOf settings base fs) os)).root =
      rootOf settings base fs := by
    rw [concluded_recorded, Summary.recorded_eq]
  rw [hroot, outcomes_concluded]
  refine ⟨sources, hf.scanned, hf.converts.length_eq, succeeded_concluded _ os, ?_⟩
  have hheading : (heading (rootOf settings base fs)).filterMap Event.update? = [] := rfl
  have hnote : (Event.note (.candidates sources.length)).update? = none := rfl
  have hloop := htold.updates
  simp only [Option.isSome_some, if_true, Nat.zero_add] at hloop
  rw [Log.updates_eq, List.filterMap_append, hheading, List.nil_append,
    List.filterMap_cons_none hnote, List.filterMap_append, List.filterMap_append, hloop,
    updates_of_closing, (events_of_writeReport _ _ _).2, List.append_nil]

theorem marks_of_updates (root : Path) (os : List Outcome) :
    (os.mapIdx (fun i o => fileUpdate (i + 1) os.length o) ++
        [finalUpdate os.length (Summary.recorded root os)]).map Progress.mark =
      Progress.marks os.length (!os.any (·.status = .failed)) := by
  have hfiles : (os.mapIdx fun i o => fileUpdate (i + 1) os.length o).map Progress.mark =
      (List.range os.length).map fun (i : Nat) =>
        ((i : Int) + 1, (os.length : Int), Progress.Status.running) := by
    refine List.ext_getElem (by simp) fun i hi hi' => ?_
    simp [fileUpdate, Progress.mark]
  rw [List.map_append, hfiles, List.map_singleton, mark_finalUpdate]
  rfl

/-- The progress of a run that returns. Nothing is told of a root that is not there; else there is
one update for each file that was found, in order, and one for the end of the run. -/
theorem run_progresses {hear : Listener}
    (h : (run settings converter (some hear) base).run fs = ⟨.ok summary, after, events⟩) :
    (summary.rootMissing = true → Log.updates events = []) ∧
      (summary.rootMissing = false → ∃ sources,
        Scan.run fs (rootOf settings base fs) settings.patterns.texts settings.recursive =
            .ok sources ∧
          summary.outcomes.length = sources.length ∧
          (Log.updates events).map (fun u => (u.completed, u.total, u.status)) =
            (List.range sources.length).map
                (fun (i : Nat) => ((i : Int) + 1, (sources.length : Int), .running)) ++
              [((sources.length : Int), (sources.length : Int),
                if summary.outcomes.any (·.status = .failed) then .failed else .done)] ∧
          (sources = [] → (Log.updates events).map (fun u => (u.completed, u.total, u.status)) =
            [(0, 0, .done)]) ∧
          Progress.Advances sources.length summary.succeeded (Log.updates events)) := by
  constructor
  · intro hmissing
    rcases run_returns_cases ⟨events, h⟩ with ⟨hdir, -, -⟩ | ⟨-, hall⟩
    · rw [run_eq, hdir] at h
      cases hcheck : settings.check with
      | error fault => simp [hcheck] at h
      | ok =>
        simp only [hcheck, Trace.mk.injEq] at h
        rw [← h.2.2]
        rfl
    · obtain ⟨sources, os, mid, -, rfl, -⟩ := convertAll_returns_iff_reported.1 hall
      rw [concluded_recorded, Summary.recorded_eq] at hmissing
      simp at hmissing
  · intro hthere
    obtain ⟨sources, hscan, hlength, hsucceeded, hupdates⟩ := updates_of_run h hthere
    have hmarks : (Log.updates events).map Progress.mark =
        Progress.marks sources.length summary.succeeded := by
      rw [hupdates, ← hlength, hsucceeded]
      exact marks_of_updates summary.root summary.outcomes
    have hends : (if summary.outcomes.any (·.status = .failed) then Progress.Status.failed
        else .done) = if summary.succeeded then .done else .failed := by
      rw [hsucceeded]
      cases summary.outcomes.any (·.status = .failed) <;> rfl
    refine ⟨sources, hscan, hlength, ?_, ?_, Progress.advances_of_marks hmarks⟩
    · rw [hends]
      exact hmarks
    · rintro rfl
      rw [List.length_nil, List.length_eq_zero_iff] at hlength
      rw [hlength] at hsucceeded
      rw [hsucceeded] at hmarks
      exact hmarks

/-! ## A run with a failure -/

theorem run_progresses_secondOnly :
    ∃ summary after events, (run Conversion.plainSettings secondOnly (some silent) none).run
        twoResources = ⟨.ok summary, after, events⟩ ∧
      summary.rootMissing = false ∧
      (Log.updates events).map (fun u => (u.completed, u.total, u.status)) =
        [(1, 2, .running), (2, 2, .running), (2, 2, .failed)] := by
  obtain ⟨events, hrun⟩ := run_secondOnly silent_heard
  obtain ⟨sources, -, hlength, hmarks, -⟩ := (run_progresses hrun).2 rfl
  rw [← hlength, outcomes_concluded] at hmarks
  exact ⟨_, _, events, hrun, rfl, hmarks⟩

end Run

end ResourceAccessors
