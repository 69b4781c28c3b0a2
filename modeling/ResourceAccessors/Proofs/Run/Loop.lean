import ResourceAccessors.Run
import ResourceAccessors.Proofs.Action

/-! The loop of a run as a relation. `Converts` threads the file system through the conversions of
the files, one outcome for each; a run that returns is a scan, such a chain from the file system
that was scanned, and a summary which records the outcomes in order. -/
namespace ResourceAccessors
set_option autoImplicit false

open ResourceAccessors.Action

namespace Summary

theorem foldl_record (s : Summary) (os : List Outcome) :
    os.foldl record s =
      { s with
        outcomes := s.outcomes ++ os
        processed := s.processed + os.length
        converted := s.converted + os.countP (·.status = .converted)
        failed := s.failed + os.countP (·.status = .failed) } := by
  induction os generalizing s with
  | nil => simp
  | cons o os ih =>
    rw [List.foldl_cons, ih]
    simp only [record, List.append_assoc, List.singleton_append, List.length_cons, List.countP_cons,
      decide_eq_true_eq, Summary.mk.injEq, true_and, and_true]
    omega

/-- The summary of a run over a root, before its end is told. -/
def recorded (root : Path) (os : List Outcome) : Summary :=
  os.foldl record (empty root)

theorem recorded_eq (root : Path) (os : List Outcome) :
    recorded root os =
      { root := root
        processed := os.length
        converted := os.countP (·.status = .converted)
        failed := os.countP (·.status = .failed)
        outcomes := os
        succeeded := true
        rootMissing := false } := by
  rw [recorded, foldl_record]
  simp [empty]

theorem length_eq_countP {os : List Outcome}
    (h : ∀ o ∈ os, o.status = .converted ∨ o.status = .unchanged ∨ o.status = .failed) :
    os.length = os.countP (·.status = .converted) + os.countP (·.status = .unchanged) +
      os.countP (·.status = .failed) := by
  induction os with
  | nil => rfl
  | cons o os ih =>
    have ih := ih fun o' ho' => h o' (List.mem_cons_of_mem o ho')
    simp only [List.length_cons, List.countP_cons, decide_eq_true_eq]
    rcases h o (List.mem_cons_self ..) with hs | hs | hs <;> simp [hs] <;> omega

/-- What is neither converted nor failed is unchanged, where every outcome is one of the three. -/
theorem unchanged_recorded (root : Path) {os : List Outcome}
    (h : ∀ o ∈ os, o.status = .converted ∨ o.status = .unchanged ∨ o.status = .failed) :
    (recorded root os).unchanged = os.countP (·.status = .unchanged) := by
  have hsum := length_eq_countP h
  rw [recorded_eq]
  simp only [unchanged]
  omega

end Summary

namespace Run

variable {settings : Settings} {converter : Converter} {listener : Option Listener}
  {total ordinal index : Nat} {update : Progress} {fs after : FileSystem} {source : SourceFile}
  {sources : List SourceFile} {os : List Outcome} {root : Path} {result summary : Summary}

/-! ## What is told on the way -/

/-- The listener, if there is one, hears an update and raises nothing. -/
def Heard (listener : Option Listener) (ordinal : Nat) (update : Progress) : Prop :=
  ∀ hear, listener = some hear → hear ordinal update = none

theorem heard_none (ordinal : Nat) (update : Progress) : Heard none ordinal update := by
  intro hear h
  simp at h

theorem announce_returns_iff :
    (announce listener ordinal update).Returns fs () after ↔
      Heard listener ordinal update ∧ after = fs := by
  unfold announce Heard
  cases listener with
  | none => simp [returns_pure_iff]
  | some hear =>
    simp only [returns_bind_of_returns (returns_emit _)]
    cases hh : hear ordinal update with
    | none => simp [returns_pure_iff, hh]
    | some raised => simp [not_returns_fail, hh]

theorem sayAll_returns (messages : List Message) (fs : FileSystem) :
    (sayAll messages).Returns fs () fs := by
  induction messages with
  | nil => exact returns_pure
  | cons m messages ih => exact (returns_bind_of_returns (returns_emit _)).2 ih

/-! ## The loop -/

/-- The conversion of the files from the `index`-th on. -/
inductive Converts (settings : Settings) (converter : Converter) (listener : Option Listener)
    (total : Nat) : Nat → FileSystem → List SourceFile → List Outcome → FileSystem → Prop
  | nil (index : Nat) (fs : FileSystem) : Converts settings converter listener total index fs [] [] fs
  | cons {index : Nat} {fs mid after : FileSystem} {source : SourceFile} {rest : List SourceFile}
      {o : Outcome} {os : List Outcome} :
      (Conversion.step settings converter index source).Returns fs o mid →
      Heard listener index (fileUpdate (index + 1) total o) →
      Converts settings converter listener total (index + 1) mid rest os after →
      Converts settings converter listener total index fs (source :: rest) (o :: os) after

theorem convertFrom_returns_iff :
    (convertFrom settings converter listener total index summary sources).Returns fs result after ↔
      ∃ os, Converts settings converter listener total index fs sources os after ∧
        result = os.foldl Summary.record summary := by
  induction sources generalizing index summary fs with
  | nil =>
    rw [convertFrom, returns_pure_iff]
    constructor
    · rintro ⟨rfl, rfl⟩
      exact ⟨[], .nil index _, rfl⟩
    · rintro ⟨os, hc, rfl⟩
      cases hc
      exact ⟨rfl, rfl⟩
  | cons source rest ih =>
    rw [convertFrom, returns_bind_iff]
    constructor
    · rintro ⟨o, mid, ho, h⟩
      rw [returns_bind_of_returns (sayAll_returns _ mid), returns_bind_iff] at h
      obtain ⟨⟨⟩, told, htold, h⟩ := h
      obtain ⟨hheard, rfl⟩ := announce_returns_iff.1 htold
      obtain ⟨os, hos, rfl⟩ := ih.1 h
      exact ⟨o :: os, .cons ho hheard hos, rfl⟩
    · rintro ⟨os, hc, rfl⟩
      cases hc with
      | @cons _ _ mid _ _ _ o os ho hheard hos =>
        refine ⟨o, mid, ho, ?_⟩
        rw [returns_bind_of_returns (sayAll_returns _ mid),
          returns_bind_of_returns (announce_returns_iff.2 ⟨hheard, rfl⟩)]
        exact ih.2 ⟨os, hos, rfl⟩

theorem Converts.length_eq
    (h : Converts settings converter listener total index fs sources os after) :
    os.length = sources.length := by
  induction h with
  | nil => rfl
  | cons _ _ _ ih => rw [List.length_cons, ih, List.length_cons]

/-- The files that the conversion of some sources leaves, whatever each of them ends in. -/
def filesAfter (settings : Settings) (converter : Converter) :
    Nat → FileSystem → List SourceFile → FileSystem
  | _, fs, [] => fs
  | index, fs, source :: rest =>
    filesAfter settings converter (index + 1)
      ((Conversion.step settings converter index source).run fs).files rest

theorem Converts.eq_filesAfter
    (h : Converts settings converter listener total index fs sources os after) :
    after = filesAfter settings converter index fs sources := by
  induction h with
  | nil => rfl
  | cons hstep _ _ ih =>
    rw [filesAfter, (returns_iff.1 hstep).2]
    exact ih

/-! ## A loop that is broken off -/

theorem announce_fails_iff {fault : Fault} :
    (announce listener ordinal update).Fails fs fault ↔
      ∃ hear raised, listener = some hear ∧ hear ordinal update = some raised ∧
        fault = .raised raised := by
  unfold announce
  cases listener with
  | none => simp [returns_pure.not_fails]
  | some hear =>
    simp only [fails_bind_of_returns (returns_emit _)]
    cases hh : hear ordinal update with
    | none => simp [returns_pure.not_fails, hh]
    | some raised => simp [fails_fail_iff, hh]

/-- What can break a loop off at a file: its conversion, or the listener. -/
inductive Breaks (settings : Settings) (converter : Converter) (listener : Option Listener)
    (total index : Nat) (source : SourceFile) (fs : FileSystem) : Fault → Prop
  | converting {fault : Fault} : (Conversion.step settings converter index source).Fails fs fault →
      Breaks settings converter listener total index source fs fault
  | hearing {o : Outcome} {after : FileSystem} {hear : Listener} {raised : Raised} :
      (Conversion.step settings converter index source).Returns fs o after →
      listener = some hear → hear index (fileUpdate (index + 1) total o) = some raised →
      Breaks settings converter listener total index source fs (.raised raised)

theorem convertFrom_fails_iff {fault : Fault} :
    (convertFrom settings converter listener total index summary sources).Fails fs fault ↔
      ∃ k source os mid, sources[k]? = some source ∧
        Converts settings converter listener total index fs (sources.take k) os mid ∧
        Breaks settings converter listener total (index + k) source mid fault := by
  induction sources generalizing index summary fs with
  | nil =>
    rw [convertFrom]
    simp [returns_pure.not_fails]
  | cons source rest ih =>
    rw [convertFrom, fails_bind_iff]
    constructor
    · rintro (hstep | ⟨o, mid, ho, h⟩)
      · exact ⟨0, source, [], fs, rfl, .nil index fs, .converting hstep⟩
      · rw [fails_bind_of_returns (sayAll_returns _ mid), fails_bind_iff] at h
        rcases h with htold | ⟨⟨⟩, told, htold, h⟩
        · obtain ⟨hear, raised, hlistener, hraised, rfl⟩ := announce_fails_iff.1 htold
          exact ⟨0, source, [], fs, rfl, .nil index fs, .hearing ho hlistener hraised⟩
        · obtain ⟨hheard, rfl⟩ := announce_returns_iff.1 htold
          obtain ⟨k, later, os, before, hk, hbefore, hbreaks⟩ := ih.1 h
          rw [Nat.add_right_comm, Nat.add_assoc] at hbreaks
          exact ⟨k + 1, later, o :: os, before, hk, .cons ho hheard hbefore, hbreaks⟩
    · rintro ⟨k, later, os, before, hk, hbefore, hbreaks⟩
      cases k with
      | zero =>
        rw [List.getElem?_cons_zero, Option.some.injEq] at hk
        subst hk
        cases hbefore
        cases hbreaks with
        | converting hstep => exact .inl hstep
        | hearing ho hlistener hraised =>
          refine .inr ⟨_, _, ho, ?_⟩
          rw [fails_bind_of_returns (sayAll_returns _ _), fails_bind_iff]
          exact .inl (announce_fails_iff.2 ⟨_, _, hlistener, hraised, rfl⟩)
      | succ k =>
        rw [List.take_succ_cons] at hbefore
        cases hbefore with
        | @cons _ _ mid _ _ _ o os ho hheard hbefore =>
          refine .inr ⟨o, mid, ho, ?_⟩
          rw [fails_bind_of_returns (sayAll_returns _ mid),
            fails_bind_of_returns (announce_returns_iff.2 ⟨hheard, rfl⟩)]
          rw [← Nat.add_assoc, Nat.add_right_comm] at hbreaks
          exact ih.2 ⟨k, later, os, before, hk, hbefore, hbreaks⟩

/-! ## The end of a run -/

def finalUpdate (total : Nat) (summary : Summary) : Progress :=
  if 0 < summary.processed then lastUpdate total (decide (summary.failed = 0)) else emptyUpdate

/-- A run that found files succeeded if none failed. -/
def concluded (summary : Summary) : Summary :=
  if 0 < summary.processed then { summary with succeeded := decide (summary.failed = 0) }
  else summary

theorem conclude_returns_iff :
    (conclude listener total summary).Returns fs result after ↔
      Heard listener total (finalUpdate total summary) ∧ result = concluded summary ∧ after = fs := by
  have hend : ∀ {update : Progress} {last : Action Summary} {value : Summary},
      (∀ fs, last.Returns fs value fs) →
      ((announce listener total update >>= fun _ => last).Returns fs result after ↔
        Heard listener total update ∧ result = value ∧ after = fs) := by
    intro update last value hlast
    rw [returns_bind_iff]
    constructor
    · rintro ⟨⟨⟩, told, htold, h⟩
      obtain ⟨hheard, rfl⟩ := announce_returns_iff.1 htold
      exact ⟨hheard, h.unique (hlast _)⟩
    · rintro ⟨hheard, rfl, rfl⟩
      exact ⟨(), _, announce_returns_iff.2 ⟨hheard, rfl⟩, hlast _⟩
  unfold conclude finalUpdate concluded
  split
  · simp only [say, returns_bind_of_returns (returns_emit _)]
    exact hend fun fs => (returns_bind_of_returns (returns_emit _)).2 returns_pure
  · exact hend fun fs => (returns_bind_of_returns (returns_emit _)).2
      ((returns_bind_of_returns (returns_emit _)).2 returns_pure)

theorem concluded_recorded (root : Path) (os : List Outcome) :
    concluded (Summary.recorded root os) =
      { Summary.recorded root os with succeeded := decide ((Summary.recorded root os).failed = 0) } := by
  rw [concluded, Summary.recorded_eq]
  cases os with
  | nil => rfl
  | cons o os => simp

theorem outcomes_concluded (root : Path) (os : List Outcome) :
    (concluded (Summary.recorded root os)).outcomes = os := by
  rw [concluded_recorded, Summary.recorded_eq]

/-- What a run comes to behind the check of its root. -/
structure Finishes (settings : Settings) (converter : Converter) (listener : Option Listener)
    (root : Path) (fs : FileSystem) (sources : List SourceFile) (os : List Outcome)
    (after : FileSystem) : Prop where
  scanned : Scan.run fs root settings.patterns.texts settings.recursive = .ok sources
  converts : Converts settings converter listener sources.length 0 fs sources os after
  told : Heard listener sources.length (finalUpdate sources.length (Summary.recorded root os))

/-- What the end of a run changes: nothing, or what writing the report does. -/
def Reported (report : Option Path) (summary : Summary) (fs after : FileSystem) : Prop :=
  after = fs ∨ ∃ p, report = some p ∧ after = (Report.write fs p summary.outcomes).2

theorem Reported.eq_of_none (h : Reported none summary fs after) : after = fs := by
  rcases h with heq | ⟨p, hp, -⟩
  · exact heq
  · simp at hp

theorem reported_of_returns {report : Option Path}
    (h : (writeReport report summary).Returns fs () after) : Reported report summary fs after := by
  cases report with
  | none => exact .inl (returns_pure_iff.1 h).2
  | some p =>
    refine .inr ⟨p, rfl, ?_⟩
    have hchange : (Action.change fun fs =>
        let written := Report.write fs p summary.outcomes
        (.ok written.1, written.2)).Returns fs (Report.write fs p summary.outcomes).1
          (Report.write fs p summary.outcomes).2 := ⟨[], rfl⟩
    unfold writeReport at h
    obtain ⟨result, mid, hmid, h⟩ := returns_bind_iff.1 h
    obtain ⟨-, rfl⟩ := hmid.unique hchange
    split at h
    · exact (returns_pure_iff.1 h).2
    · exact absurd h not_returns_fail
    · exact absurd h not_returns_fail
    · exact (h.unique (returns_emit _)).2

theorem convertAll_returns_iff_reported :
    (convertAll settings converter listener root).Returns fs result after ↔
      ∃ sources os mid, Finishes settings converter listener root fs sources os mid ∧
        result = concluded (Summary.recorded root os) ∧
        (writeReport settings.report result).Returns mid () after := by
  simp only [convertAll, say, note, returns_bind_of_returns (returns_emit _),
    returns_bind_of_returns (returns_ask _)]
  rw [returns_bind_iff]
  simp only [returns_ofExcept_mapError_iff, returns_bind_of_returns (returns_emit _),
    returns_bind_iff, convertFrom_returns_iff, conclude_returns_iff, returns_pure_iff]
  constructor
  · rintro ⟨sources, _, ⟨hscan, rfl⟩, _, mid, ⟨os, hos, rfl⟩, _, _, ⟨hheard, rfl, rfl⟩, _, _,
      hreport, rfl, rfl⟩
    exact ⟨sources, os, _, ⟨hscan, hos, hheard⟩, rfl, hreport⟩
  · rintro ⟨sources, os, mid, hf, rfl, hreport⟩
    exact ⟨sources, fs, ⟨hf.scanned, rfl⟩, _, mid, ⟨os, hf.converts, rfl⟩, _, mid,
      ⟨hf.told, rfl, rfl⟩, (), after, hreport, rfl, rfl⟩

theorem convertAll_returns_iff (hreport : settings.report = none) :
    (convertAll settings converter listener root).Returns fs result after ↔
      ∃ sources os, Finishes settings converter listener root fs sources os after ∧
        result = concluded (Summary.recorded root os) := by
  simp only [convertAll_returns_iff_reported, hreport, writeReport, returns_pure_iff, true_and]
  constructor
  · rintro ⟨sources, os, mid, hf, rfl, rfl⟩
    exact ⟨sources, os, hf, rfl⟩
  · rintro ⟨sources, os, hf, rfl⟩
    exact ⟨sources, os, after, hf, rfl, rfl⟩

def rootOf (settings : Settings) (base : Option Path) (fs : FileSystem) : Path :=
  Root.resolve (processDirectory fs) base settings.input

theorem run_returns_iff_convertAll {base : Option Path}
    (hdir : fs.isDirectory (rootOf settings base fs) = .ok true) :
    (run settings converter listener base).Returns fs result after ↔
      settings.check = .ok () ∧
        (convertAll settings converter listener (rootOf settings base fs)).Returns fs result
          after := by
  unfold rootOf at hdir ⊢
  unfold run
  rw [returns_bind_iff]
  simp only [returns_ofExcept_mapError_iff, returns_bind_of_returns (returns_ask _), Root.require]
  constructor
  · rintro ⟨⟨⟩, mid, ⟨hcheck, hmid⟩, h⟩
    subst mid
    rw [hdir] at h
    exact ⟨hcheck, h⟩
  · rintro ⟨hcheck, h⟩
    refine ⟨(), fs, ⟨hcheck, rfl⟩, ?_⟩
    rw [hdir]
    exact h

/-- A run that returns has found no root, or has done what there is to do behind the check of it. -/
theorem run_returns_cases {base : Option Path}
    (h : (run settings converter listener base).Returns fs result after) :
    (fs.isDirectory (rootOf settings base fs) = .ok false ∧ after = fs ∧
        result = { Summary.empty (rootOf settings base fs) with
          succeeded := false, rootMissing := true }) ∨
      (fs.isDirectory (rootOf settings base fs) = .ok true ∧
        (convertAll settings converter listener (rootOf settings base fs)).Returns fs result
          after) := by
  unfold run at h
  rw [returns_bind_iff] at h
  simp only [returns_ofExcept_mapError_iff, returns_bind_of_returns (returns_ask _),
    Root.require] at h
  obtain ⟨⟨⟩, mid, ⟨-, hmid⟩, h⟩ := h
  subst mid
  unfold rootOf
  cases hdir : fs.isDirectory (Root.resolve (processDirectory fs) base settings.input) with
  | error fault =>
    rw [hdir] at h
    exact absurd h not_returns_fail
  | ok isDir =>
    rw [hdir] at h
    cases isDir with
    | true => exact .inr ⟨rfl, h⟩
    | false =>
      simp only [say, returns_bind_of_returns (returns_emit _), returns_pure_iff] at h
      exact .inl ⟨rfl, h.2, h.1⟩

theorem isDirectory_of_returns {base : Option Path}
    (h : (run settings converter listener base).Returns fs result after)
    (hthere : result.rootMissing = false) :
    fs.isDirectory (rootOf settings base fs) = .ok true := by
  rcases run_returns_cases h with ⟨-, -, rfl⟩ | ⟨hdir, -⟩
  · simp at hthere
  · exact hdir

/-- A run whose root is there returns exactly if its settings pass their check, its root is a
directory, and the rest of it returns. -/
theorem run_returns_iff {base : Option Path} (hreport : settings.report = none) :
    ((run settings converter listener base).Returns fs result after ∧
        result.rootMissing = false) ↔
      settings.check = .ok () ∧ fs.isDirectory (rootOf settings base fs) = .ok true ∧
        ∃ sources os, Finishes settings converter listener (rootOf settings base fs) fs sources os
          after ∧ result = concluded (Summary.recorded (rootOf settings base fs) os) := by
  rw [← convertAll_returns_iff hreport]
  constructor
  · rintro ⟨h, hthere⟩
    have hdir := isDirectory_of_returns h hthere
    have hreturns := (run_returns_iff_convertAll hdir).1 h
    exact ⟨hreturns.1, hdir, hreturns.2⟩
  · rintro ⟨hcheck, hdir, h⟩
    refine ⟨(run_returns_iff_convertAll hdir).2 ⟨hcheck, h⟩, ?_⟩
    obtain ⟨sources, os, -, rfl⟩ := (convertAll_returns_iff hreport).1 h
    rw [concluded_recorded, Summary.recorded_eq]

/-- What a run that returns is made of: the scan of its root, which finds nothing where there is
no root, the conversion of the files found, and the report. -/
structure Composed (settings : Settings) (converter : Converter) (listener : Option Listener)
    (root : Path) (fs : FileSystem) (sources : List SourceFile) (mid : FileSystem)
    (summary : Summary) (after : FileSystem) : Prop where
  scanned : Scan.run fs root settings.patterns.texts settings.recursive = .ok sources
  converts :
    Converts settings converter listener sources.length 0 fs sources summary.outcomes mid
  converted : summary.converted = summary.outcomes.countP (·.status = .converted)
  reported : Reported settings.report summary mid after

theorem composed_of_returns {base : Option Path}
    (h : (run settings converter listener base).Returns fs summary after) :
    ∃ sources mid, Composed settings converter listener (rootOf settings base fs) fs sources mid
      summary after := by
  rcases run_returns_cases h with ⟨hdir, hsame, rfl⟩ | ⟨hdir, h⟩
  · have hscan : Scan.run fs (rootOf settings base fs) settings.patterns.texts
        settings.recursive = .ok [] := by
      unfold Scan.run
      rw [hdir]
    exact ⟨[], fs, hscan, .nil 0 fs, rfl, .inl hsame⟩
  · obtain ⟨sources, os, mid, hf, rfl, hreport⟩ := convertAll_returns_iff_reported.1 h
    have hreported := reported_of_returns hreport
    rw [concluded_recorded, Summary.recorded_eq] at hreported ⊢
    exact ⟨sources, mid, hf.scanned, hf.converts, rfl, hreported⟩

end Run

end ResourceAccessors
