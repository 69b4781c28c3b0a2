import ResourceAccessors.Proofs.Run.Accounting
import ResourceAccessors.Proofs.Run.Course
import ResourceAccessors.Proofs.Scan.Decided

/-! The root of a run. A root that is no directory is told and makes the run a failed one, whatever it
is instead, and the scan of a directory passes over all that leads nowhere. One obstacle gets past
both: a path that is too long to be looked up, that of the root or that of an entry in reach of the
scan, ends the run in a fault. So does a directory too deep for the scan to be listed. -/
namespace ResourceAccessors.Run
set_option autoImplicit false

open ResourceAccessors.Action

variable {settings : Settings} {converter : Converter} {listener : Option Listener}
  {base : Option Path} {fs : FileSystem} {root : Path} {dir : Location}

theorem run_of_tooLong (hcheck : settings.check = .ok ()) (hroot : rootOf settings base fs = root)
    (hlong : fs.TooLong root) :
    (run settings converter listener base).run fs =
      ⟨.error (.file (.obstructed .nameTooLong root)), fs, []⟩ := by
  have hdir : fs.isDirectory root = .error (.obstructed .nameTooLong root) :=
    FileSystem.leadsTo_eq_error_iff.2 ⟨rfl, hlong⟩
  rw [run_eq, hcheck, hroot, hdir]

theorem run_of_missing (hcheck : settings.check = .ok ()) (hroot : rootOf settings base fs = root)
    (hdir : fs.isDirectory root = .ok false) :
    (run settings converter listener base).run fs =
      ⟨.ok (missingRoot root), fs, [.message (.rootMissing root)]⟩ := by
  rw [run_eq, hcheck, hroot, hdir]

/-- A scan that stops ends the run before anything is converted. -/
theorem run_of_scan_error {fault : FileFault} (hcheck : settings.check = .ok ())
    (hroot : rootOf settings base fs = root) (hdir : fs.isDirectory root = .ok true)
    (hscan : Scan.run fs root settings.patterns.texts settings.recursive = .error fault) :
    (run settings converter listener base).run fs = ⟨.error (.file fault), fs, heading root⟩ := by
  rw [run_eq, hcheck, hroot, hdir]
  simp only [run_convertAll, hscan]

theorem run_rooted (htree : fs.IsTree) (hcheck : settings.check = .ok ())
    (hroot : rootOf settings base fs = root) :
    ((∀ dir, fs.locate root = .ok dir → fs.entryAt dir ≠ some .directory) → ¬ fs.TooLong root →
      (run settings converter listener base).run fs =
          ⟨.ok { Summary.empty root with succeeded := false, rootMissing := true }, fs,
            [.message (.rootMissing root)]⟩ ∧
        (Message.rootMissing root).tone = .error) ∧
    (fs.TooLong root → (run settings converter listener base).run fs =
      ⟨.error (.file (.obstructed .nameTooLong root)), fs, []⟩) ∧
    ∀ dir, fs.locate root = .ok dir → fs.entryAt dir = some .directory →
      ((∀ names, Scan.InReach fs settings.recursive dir names →
          ∀ fault, ¬ Scan.Stops fs root settings.recursive dir names fault) →
        ∃ sources, Scan.run fs root settings.patterns.texts settings.recursive = .ok sources ∧
          ∀ source, source ∈ sources ↔ ∃ names, Scan.InReach fs settings.recursive dir names ∧
            source = Scan.sourceFile root names ∧
            (∃ loc bytes, fs.locate source.source = .ok loc ∧
              fs.entryAt loc = some (.file bytes)) ∧
            Pattern.anyAccepts settings.patterns.texts source.source.name = true) ∧
      ((∃ names fault, Scan.InReach fs settings.recursive dir names ∧
          Scan.Stops fs root settings.recursive dir names fault) →
        ∃ names fault, Scan.InReach fs settings.recursive dir names ∧
          Scan.Stops fs root settings.recursive dir names fault ∧
          (run settings converter listener base).run fs =
            ⟨.error (.file fault), fs, heading root⟩) := by
  refine ⟨fun hno hlong => ⟨?_, rfl⟩, fun hlong => ?_,
    fun dir hlocate hdir => ⟨fun hpass => ?_, ?_⟩⟩
  · exact run_of_missing hcheck hroot (FileSystem.isDirectory_eq_false hlong hno)
  · exact run_of_tooLong hcheck hroot hlong
  · obtain ⟨sources, hscan⟩ := (Scan.exists_run_eq_ok_iff htree hlocate hdir).2 hpass
    exact ⟨sources, hscan, fun source => Scan.mem_iff_of_run htree hlocate hdir hscan⟩
  · intro ⟨names, fault, hreach, hstops⟩
    have hisdir := FileSystem.isDirectory_eq_true_iff.2 ⟨dir, hlocate, hdir⟩
    cases hscan : Scan.run fs root settings.patterns.texts settings.recursive with
    | ok sources =>
      exact absurd hstops ((Scan.exists_run_eq_ok_iff htree hlocate hdir).1 ⟨sources, hscan⟩ names
        hreach fault)
    | error first =>
      obtain ⟨names, hreach, hstops⟩ := Scan.exists_stops_of_run htree hlocate hdir hscan
      exact ⟨names, first, hreach, hstops, run_of_scan_error hcheck hroot hisdir hscan⟩

/-! ## Links that lead nowhere -/

/-- A link to itself, and a link by the name of a resource file to nothing. -/
def nowhere : FileSystem :=
  ((FileSystem.empty .usual).set ["l"] (.link "l")).set ["LocalizedText.resx"] (.link "gone")

def throughLink : Settings :=
  { Conversion.plainSettings with input := some "l" }

theorem nowhere_isTree : nowhere.IsTree :=
  ((FileSystem.isTree_empty .usual).set_child (FileSystem.entryAt_nil _) rfl).set_child
    (FileSystem.entryAt_nil _) rfl

theorem throughLink_check : throughLink.check = .ok () :=
  Conversion.plainSettings_check

theorem rootOf_throughLink (h : fs.workingDirectory = []) :
    rootOf throughLink none fs = ⟨.root, ["l"]⟩ := by
  have hresolve : Root.resolve ⟨.root, []⟩ none (some "l") = ⟨.root, ["l"]⟩ := by decide +kernel
  rw [rootOf, processDirectory, h]
  exact hresolve

theorem locate_nowhere {name : String} (h : name = "l" ∨ name = "LocalizedText.resx") :
    ∃ obstacle, nowhere.locate ⟨.root, [name]⟩ = .error (.obstructed obstacle ⟨.root, [name]⟩) ∧
      obstacle ≠ .nameTooLong := by
  rcases h with rfl | rfl
  · exact ⟨.tooManyLinks, rfl, by decide⟩
  · exact ⟨.notFound, rfl, by decide⟩

/-- The link to itself is a missing root, and a scan of the directory that holds it finds nothing. -/
theorem run_rooted_nowhere :
    (run throughLink Conversion.nulConverter none none).run nowhere =
      ⟨.ok (missingRoot ⟨.root, ["l"]⟩), nowhere, [.message (.rootMissing ⟨.root, ["l"]⟩)]⟩ ∧
    ∃ sources, Scan.run nowhere ⟨.root, []⟩ ["LocalizedText.resx"] true = .ok sources ∧
      ∀ source, source ∉ sources := by
  have hfails : ∀ {name}, name = "l" ∨ name = "LocalizedText.resx" →
      (∀ dir, nowhere.locate ⟨.root, [name]⟩ ≠ .ok dir) ∧ ¬ nowhere.TooLong ⟨.root, [name]⟩ := by
    intro name hname
    obtain ⟨obstacle, hlocate, hne⟩ := locate_nowhere hname
    exact ⟨fun dir => by simp [hlocate], FileSystem.not_tooLong_of_locate hlocate hne⟩
  have hreach : ∀ {names}, Scan.InReach nowhere true [] names →
      ∃ name, names = [name] ∧ (name = "l" ∨ name = "LocalizedText.resx") := by
    intro names hnames
    have hbelow : nowhere.below (Scan.depthOf nowhere true) [] =
        [["LocalizedText.resx"], ["l"]] := rfl
    rw [← Scan.mem_below_depthOf_iff nowhere_isTree, hbelow] at hnames
    simp only [List.mem_cons, List.not_mem_nil, or_false] at hnames
    rcases hnames with rfl | rfl
    · exact ⟨_, rfl, .inr rfl⟩
    · exact ⟨_, rfl, .inl rfl⟩
  constructor
  · obtain ⟨hno, hlong⟩ := hfails (.inl rfl)
    exact ((run_rooted nowhere_isTree throughLink_check (rootOf_throughLink rfl)).1
      (fun dir hdir => absurd hdir (hno dir)) hlong).1
  · have hroot : rootOf Conversion.plainSettings none nowhere = ⟨.root, []⟩ := rfl
    have hpass : ∀ names, Scan.InReach nowhere true [] names →
        ∀ fault, ¬ Scan.Stops nowhere ⟨.root, []⟩ true [] names fault := by
      intro names hnames fault hstops
      obtain ⟨name, rfl, hname⟩ := hreach hnames
      cases hstops with
      | tooLong hlong => exact (hfails hname).2 hlong
      | tooNested _ _ hdeep =>
        have hone : 1 ≤ nowhere.limits.listings.calls := by decide
        exact absurd hdeep (Nat.not_lt.2 hone)
    obtain ⟨-, -, hthere⟩ := @run_rooted Conversion.plainSettings Conversion.nulConverter none none
      nowhere ⟨.root, []⟩ nowhere_isTree Conversion.plainSettings_check hroot
    obtain ⟨sources, hscan, hmem⟩ := (hthere [] rfl (FileSystem.entryAt_nil _)).1 hpass
    refine ⟨sources, hscan, fun source hsource => ?_⟩
    obtain ⟨names, hnames, rfl, ⟨loc, _, hloc, -⟩, -⟩ := (hmem source).1 hsource
    obtain ⟨name, rfl, hname⟩ := hreach hnames
    exact (hfails hname).1 loc hloc

/-! ## A link along a name that is too long -/

def longName : String := String.ofList (List.replicate 256 'n')

theorem targetNames_longName : FileSystem.targetNames longName = [longName] := by
  have hchars : longName.toList = List.replicate 256 'n' := String.toList_ofList
  have hslash : '/' ∉ List.replicate 256 'n' := by
    intro h
    exact absurd (List.mem_replicate.1 h).2 (by decide)
  have hne : longName ≠ "" := by
    intro hempty
    have hlength := congrArg List.length hchars
    rw [hempty, List.length_replicate] at hlength
    exact absurd hlength (by decide)
  rw [FileSystem.targetNames, Text.split, hchars, Text.segments_of_not_mem hslash]
  exact List.filter_eq_self.2 fun name hname => by
    rw [List.map_singleton, List.mem_singleton] at hname
    subst hname
    exact decide_eq_true hne

def longTarget : FileSystem :=
  (FileSystem.empty .usual).set ["l"] (.link longName)

theorem longTarget_isTree : longTarget.IsTree :=
  (FileSystem.isTree_empty .usual).set_child (FileSystem.entryAt_nil _) rfl

/-- A root that is no directory need not be told, though the settings pass their check. -/
theorem not_run_always_rooted :
    ¬ ∀ (settings : Settings) (converter : Converter) (listener : Option Listener)
      (base : Option Path) (fs : FileSystem), fs.IsTree → settings.check = .ok () →
      ¬ (rootOf settings base fs).HoldsNul →
      (∀ dir, fs.locate (rootOf settings base fs) = .ok dir → fs.entryAt dir ≠ some .directory) →
      ∃ summary, (run settings converter listener base).Returns fs summary fs := by
  intro h
  have hroot : rootOf throughLink none longTarget = ⟨.root, ["l"]⟩ := rootOf_throughLink rfl
  have hnul : ¬ (⟨.root, ["l"]⟩ : Path).HoldsNul := by
    intro ⟨name, hname, hmem⟩
    rw [List.mem_singleton] at hname
    subst hname
    exact absurd hmem (by decide)
  have hover : longTarget.Overlong 39 (FileSystem.targetStart [] longName)
      (FileSystem.targetNames longName ++ []) := by
    rw [targetNames_longName]
    exact .here (by decide +kernel)
  have hlong : longTarget.TooLong ⟨.root, ["l"]⟩ :=
    ⟨hnul, .inr (.link (by decide) (by decide) rfl hover)⟩
  have hlocate := FileSystem.locate_of_tooLong hlong
  obtain ⟨summary, events, hrun⟩ := h throughLink Conversion.nulConverter none none longTarget
    longTarget_isTree throughLink_check (hroot ▸ hnul) (by simp [hroot, hlocate])
  rw [run_of_tooLong throughLink_check hroot hlong] at hrun
  simp at hrun

end ResourceAccessors.Run
