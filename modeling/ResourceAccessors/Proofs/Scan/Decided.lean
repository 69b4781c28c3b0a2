import ResourceAccessors.Proofs.FileSystem.Overlong
import ResourceAccessors.Proofs.Scan.Stable

/-! Scans that come to an end, links or not. A scan of a directory looks at every entry in its reach
and asks whether it is a file. A link that leads nowhere is none, however it fails to lead somewhere,
so a scan is stopped only by an entry whose path is too long, by a link that has to be followed along
a name that is, or by a directory so deep that too many listings would wait for it. -/
namespace ResourceAccessors.Scan
set_option autoImplicit false

variable {fs : FileSystem} {root : Path} {dir : Location} {patterns : List String}
  {recursive : Bool} {names : List String} {sources : List SourceFile} {fault : FileFault}

/-- The names of an entry that a scan of a directory looks at: one that is anywhere below it, or in
it if the scan does not go deeper. -/
structure InReach (fs : FileSystem) (recursive : Bool) (dir : Location) (names : List String) :
    Prop where
  nonempty : names ≠ []
  shallow : recursive = false → names.length = 1
  entryNames : ∀ m ∈ names, Path.isEntryName m = true
  there : (fs.entryAt (dir ++ names)).isSome = true

theorem mem_below_depthOf_iff (htree : fs.IsTree) :
    names ∈ fs.below (depthOf fs recursive) dir ↔ InReach fs recursive dir names := by
  rw [FileSystem.mem_below_iff htree]
  constructor
  · rintro ⟨hne, hlength, hnames, hthere⟩
    refine ⟨hne, fun hflat => ?_, hnames, hthere⟩
    subst hflat
    exact Nat.le_antisymm hlength (List.length_pos_iff.2 hne)
  · rintro ⟨hne, hshallow, hnames, hthere⟩
    refine ⟨hne, ?_, hnames, hthere⟩
    cases recursive with
    | false => exact Nat.le_of_eq (hshallow rfl)
    | true =>
      have hdepth := FileSystem.length_lt_depth hthere
      rw [List.length_append] at hdepth
      exact Nat.le_trans (Nat.le_add_left _ _) (Nat.le_of_lt hdepth)

theorem faultAt_eq_some_iff : faultAt fs root names = some fault ↔
    fault = .obstructed .nameTooLong (root.below names) ∧ fs.TooLong (root.below names) := by
  unfold faultAt
  rw [source_sourceFile, FileSystem.isFile_eq, ← FileSystem.leadsTo_eq_error_iff]
  cases fs.leadsTo Entry.isFile (root.below names) <;> simp

theorem faultAt_eq_none_iff_not_tooLong :
    faultAt fs root names = none ↔ ¬ fs.TooLong (root.below names) := by
  rw [Option.eq_none_iff_forall_ne_some]
  constructor
  · intro h hlong
    exact h _ (faultAt_eq_some_iff.2 ⟨rfl, hlong⟩)
  · intro h fault hfault
    exact h (faultAt_eq_some_iff.1 hfault).2

/-- A scan comes no further than an entry in its reach: it cannot tell what the entry is, or the
entry is a directory and too many listings would wait for its own. -/
inductive Stops (fs : FileSystem) (root : Path) (recursive : Bool) (dir : Location)
    (names : List String) : FileFault → Prop
  | tooLong : fs.TooLong (root.below names) →
      Stops fs root recursive dir names (.obstructed .nameTooLong (root.below names))
  | tooNested : recursive = true → fs.entryAt (dir ++ names) = some .directory →
      fs.limits.listings.calls < names.length →
      Stops fs root recursive dir names (.tooNested fs.limits.listings.reason)

theorem listable_iff (htree : fs.IsTree) : Listable fs recursive dir ↔
    ∀ names, InReach fs recursive dir names → recursive = true →
      fs.entryAt (dir ++ names) = some .directory → names.length ≤ fs.limits.listings.calls := by
  simp only [Listable, mem_below_depthOf_iff htree]
  exact ⟨fun h names hreach hrecursive => h hrecursive names hreach,
    fun h hrecursive names hreach => h names hreach hrecursive⟩

theorem exists_run_eq_ok_iff (htree : fs.IsTree) (hroot : fs.locate root = .ok dir)
    (hdir : fs.entryAt dir = some .directory) :
    (∃ sources, run fs root patterns recursive = .ok sources) ↔
      ∀ names, InReach fs recursive dir names →
        ∀ fault, ¬ Stops fs root recursive dir names fault := by
  simp only [run_eq_ok_iff hroot hdir, mem_below_depthOf_iff htree,
    faultAt_eq_none_iff_not_tooLong, listable_iff htree]
  constructor
  · rintro ⟨_, ⟨hshort, hshallow⟩, _⟩ names hreach fault hstops
    cases hstops with
    | tooLong hlong => exact hshort names hreach hlong
    | tooNested hrecursive hdirectory hdeep =>
      exact absurd (hshallow names hreach hrecursive hdirectory) (Nat.not_le.2 hdeep)
  · refine fun h => ⟨_, ⟨fun names hreach hlong => h names hreach _ (.tooLong hlong), ?_⟩, rfl⟩
    intro names hreach hrecursive hdirectory
    exact Nat.le_of_not_lt fun hdeep =>
      h names hreach _ (.tooNested hrecursive hdirectory hdeep)

/-- What stops a scan is an entry in its reach. -/
theorem exists_stops_of_run (htree : fs.IsTree) (hroot : fs.locate root = .ok dir)
    (hdir : fs.entryAt dir = some .directory)
    (h : run fs root patterns recursive = .error fault) :
    ∃ names, InReach fs recursive dir names ∧ Stops fs root recursive dir names fault := by
  have hisdir := FileSystem.isDirectory_eq_true_iff.2 ⟨dir, hroot, hdir⟩
  simp only [run, hisdir, hroot, files] at h
  split at h
  · next hfiles =>
    split at hfiles
    · next hfirst =>
      obtain ⟨visit, hmem, hstop⟩ := List.exists_of_findSome?_eq_some hfirst
      obtain rfl := (Except.error.inj hfiles).trans (Except.error.inj h)
      cases visit with
      | entry names =>
        obtain ⟨rfl, hlong⟩ := faultAt_eq_some_iff.1 hstop
        rw [entry_mem_visits_iff, mem_below_depthOf_iff htree] at hmem
        exact ⟨names, hmem, .tooLong hlong⟩
      | listing names =>
        rw [stopAt] at hstop
        split at hstop
        · next hdeep =>
          simp only [Bool.and_eq_true, decide_eq_true_eq] at hdeep
          obtain ⟨rfl, hdeep⟩ := hdeep
          obtain rfl := Option.some.inj hstop
          -- the directory where the scan starts is listed while no listing waits
          rcases listing_mem_visits_depth_iff.1 hmem with rfl | ⟨hbelow, hdirectory⟩
          · exact absurd hdeep (Nat.not_lt_zero _)
          · exact ⟨names, (mem_below_depthOf_iff htree).1 hbelow, .tooNested rfl hdirectory hdeep⟩
        · simp at hstop
    · simp at hfiles
  · simp at h

/-- A scan that comes to an end finds what leads to a file and has a name that a pattern accepts,
and passes over the rest. -/
theorem mem_iff_of_run {source : SourceFile} (htree : fs.IsTree) (hroot : fs.locate root = .ok dir)
    (hdir : fs.entryAt dir = some .directory)
    (hscan : run fs root patterns recursive = .ok sources) :
    source ∈ sources ↔ ∃ names, InReach fs recursive dir names ∧ source = sourceFile root names ∧
      (∃ loc bytes, fs.locate source.source = .ok loc ∧ fs.entryAt loc = some (.file bytes)) ∧
      Pattern.anyAccepts patterns source.source.name = true := by
  obtain ⟨-, rfl⟩ := (run_eq_ok_iff hroot hdir).1 hscan
  simp only [List.mem_map, List.mem_filter, mem_below_depthOf_iff htree, taken, Bool.and_eq_true,
    isFileAt_iff]
  constructor
  · rintro ⟨names, ⟨hreach, hfile, haccepted⟩, rfl⟩
    exact ⟨names, hreach, rfl, hfile, haccepted⟩
  · rintro ⟨names, hreach, rfl, hfile, haccepted⟩
    exact ⟨names, ⟨hreach, hfile, haccepted⟩, rfl⟩

end ResourceAccessors.Scan
