import ResourceAccessors.Proofs.Scan.Decided
import ResourceAccessors.Proofs.Scan.Ordered

/-! What a scan finds, exactly. The root may be reached through links and there may be links below
it, but none is followed on the way to an entry below, so a lookup behind the root goes straight down
to that entry. -/
namespace ResourceAccessors
set_option autoImplicit false

namespace FileSystem

variable {fs : FileSystem} {root : Path} {start dir loc : Location} {names rest : List String}
  {links : Nat} {slashed ends : Bool}

/-! ## Lookups behind a root -/

theorem follow_congr {other : Location} (h : fs.descend start names = fs.descend other rest) :
    fs.follow links slashed start names = fs.follow links slashed other rest := by
  unfold follow
  rw [h]

/-- A walk that comes to a directory goes on from there, with the links that are left. -/
theorem exists_follow_append (hdir : fs.entryAt dir = some .directory)
    (h : fs.follow links slashed start names = .ok ⟨.found dir, ends⟩) :
    ∃ fewer, ∀ rest ≠ [], ∀ slashed,
      fs.follow links slashed start (names ++ rest) = fs.follow fewer slashed dir rest := by
  induction links generalizing slashed start names with
  | zero =>
    rw [follow] at h
    split at h
    · next place hplace =>
      rw [Except.ok.injEq, Arrival.mk.injEq] at h
      exact ⟨0, fun rest _ slashed => follow_congr (descend_append hdir (h.1 ▸ hplace))⟩
    · simp at h
    · simp at h
  | succ links ih =>
    rw [follow] at h
    split at h
    · next place hplace =>
      rw [Except.ok.injEq, Arrival.mk.injEq] at h
      exact ⟨links + 1, fun rest _ slashed => follow_congr (descend_append hdir (h.1 ▸ hplace))⟩
    · simp at h
    · next d target more hlink =>
      obtain ⟨fewer, hfewer⟩ := ih h
      refine ⟨fewer, fun rest hrest slashed => ?_⟩
      -- with more names behind it, a slash at the end of the target asks for nothing
      have hempty : (more ++ rest).isEmpty = false := by simp [hrest]
      rw [follow, descend_append_link hlink]
      simp only [hempty, Bool.false_and, Bool.or_false, ← List.append_assoc]
      exact hfewer rest hrest slashed

theorem not_holdsNul_of_locate {p : Path} (h : fs.locate p = .ok loc) : ¬ p.HoldsNul :=
  (checkPath_eq_ok_iff.1 (locate_eq_ok_iff.1 h).1).1

theorem locate_below (htree : fs.IsTree) (hroot : fs.locate root = .ok dir)
    (hdir : fs.entryAt dir = some .directory) (hne : names ≠ [])
    (hnames : ∀ n ∈ names, Path.isEntryName n = true)
    (hlink : ∀ target, fs.entryAt (dir ++ names) ≠ some (.link target))
    (hthere : (fs.entryAt (dir ++ names)).isSome = true)
    (hnul : ¬ (root.below names).HoldsNul) (hlong : ¬ fs.TooLong (root.below names)) :
    fs.locate (root.below names) = .ok (dir ++ names) := by
  obtain ⟨-, ends, hfollow, -⟩ := locate_eq_ok_iff.1 hroot
  obtain ⟨fewer, hbehind⟩ := exists_follow_append hdir hfollow
  have hdescend := descend_below htree hnames hlink hthere
  have hbelow : fs.follow maxLinks false (fs.start (root.below names)) (root.below names).names =
      fs.follow fewer false dir names := hbehind names hne false
  rw [TooLong, not_and, not_or, ← follow_eq_nameTooLong_iff, hbelow] at hlong
  obtain ⟨hsize, hover⟩ := hlong hnul
  split at hdescend
  · refine locate_eq_ok_iff.2
      ⟨checkPath_eq_ok_iff.2 ⟨hnul, Nat.le_of_not_lt hsize⟩, false, ?_, by simp⟩
    rw [hbelow, follow_of_descend hdescend]
  · exact absurd (follow_of_blocked hdescend) hover

end FileSystem

namespace Scan

variable {fs : FileSystem} {root : Path} {dir : Location} {patterns : List String}
  {recursive : Bool} {sources found : List SourceFile} {source : SourceFile}

/-! ## Resource files -/

/-- A resource file of a root that leads to a directory: a file below the directory, or a link there
that leads to one, with nothing but directories in between and a name that a pattern accepts. -/
structure IsResource (fs : FileSystem) (root : Path) (dir : Location) (patterns : List String)
    (recursive : Bool) (source : SourceFile) : Prop where
  root_eq : source.root = root
  source_eq : source.source = root ++ source.relative
  relative : source.relative.anchor = .relative
  nonempty : source.relative.names ≠ []
  entryNames : ∀ name ∈ source.relative.names, Path.isEntryName name = true ∧ '\x00' ∉ name.toList
  between : ∀ above, above <+: source.relative.names → above ≠ source.relative.names →
    fs.entryAt (dir ++ above) = some .directory
  file : (∃ bytes, fs.entryAt (dir ++ source.relative.names) = some (.file bytes)) ∨
    (∃ target, fs.entryAt (dir ++ source.relative.names) = some (.link target)) ∧
      ∃ loc bytes, fs.locate source.source = .ok loc ∧ fs.entryAt loc = some (.file bytes)
  accepted : ∃ pattern ∈ patterns, Pattern.accepts pattern source.relative.name = true
  shallow : recursive = false → source.relative.names.length = 1

namespace IsResource

theorem eq_sourceFile (h : IsResource fs root dir patterns recursive source) :
    source = sourceFile root source.relative.names := by
  obtain ⟨path, above, anchor, names⟩ := source
  have hrelative : anchor = .relative := h.relative
  have hpath : path = root ++ Path.mk anchor names := h.source_eq
  have habove : above = root := h.root_eq
  subst hrelative hpath habove
  rfl

theorem eq_below (h : IsResource fs root dir patterns recursive source) :
    source.source = root.below source.relative.names :=
  congrArg SourceFile.source h.eq_sourceFile

theorem inReach (h : IsResource fs root dir patterns recursive source) :
    InReach fs recursive dir source.relative.names where
  nonempty := h.nonempty
  shallow := h.shallow
  entryNames := fun name hname => (h.entryNames name hname).1
  there := by
    rcases h.file with ⟨bytes, he⟩ | ⟨⟨target, he⟩, -⟩ <;> exact Option.isSome_of_eq_some he

theorem not_holdsNul (h : IsResource fs root dir patterns recursive source)
    (hroot : fs.locate root = .ok dir) : ¬ (root.below source.relative.names).HoldsNul := by
  rintro ⟨name, hname, hnul⟩
  rcases List.mem_append.1 hname with hname | hname
  · exact FileSystem.not_holdsNul_of_locate hroot ⟨name, hname, hnul⟩
  · exact (h.entryNames name hname).2 hnul

end IsResource

/-- The relative paths increase, name by name and code point by code point. -/
def Ordered (found : List SourceFile) : Prop :=
  found.Pairwise fun a b => Path.nameCodes a.relative.names < Path.nameCodes b.relative.names

/-- A list in order is determined by its members. -/
theorem Ordered.eq_of_mem_iff (hfound : Ordered found) (hsources : Ordered sources)
    (hmem : ∀ source, source ∈ found ↔ source ∈ sources) : found = sources :=
  eq_of_pairwise_of_mem_iff List.lt_asymm hfound hsources hmem

theorem ordered_of_run (hroot : fs.locate root = .ok dir)
    (hdir : fs.entryAt dir = some .directory)
    (hscan : run fs root patterns recursive = .ok sources) : Ordered sources := by
  obtain ⟨-, rfl⟩ := (run_eq_ok_iff hroot hdir).1 hscan
  exact List.pairwise_map.2 ((fs.below_ordered _ dir).filter _)

theorem name_sourceFile {names : List String} (h : names ≠ []) :
    (sourceFile root names).source.name = (sourceFile root names).relative.name :=
  name_below h root []

/-- An entry on the way of a scan is a file or a link if it is led to as a file. -/
theorem isResource_sourceFile {names : List String} (htree : fs.IsTree)
    (hroot : fs.locate root = .ok dir) (hdir : fs.entryAt dir = some .directory)
    (hreach : InReach fs recursive dir names) {loc : Location} {bytes : List UInt8}
    (hloc : fs.locate (sourceFile root names).source = .ok loc)
    (hfile : fs.entryAt loc = some (.file bytes))
    (haccepted : Pattern.anyAccepts patterns (sourceFile root names).source.name = true) :
    IsResource fs root dir patterns recursive (sourceFile root names) := by
  have hnul := FileSystem.not_holdsNul_of_locate hloc
  have hlong : ¬ fs.TooLong (root.below names) := fun hlong => by
    rw [source_sourceFile, FileSystem.locate_of_tooLong hlong] at hloc
    cases hloc
  rw [name_sourceFile hreach.nonempty, Pattern.anyAccepts, List.any_eq_true] at haccepted
  obtain ⟨e, he⟩ := Option.isSome_iff_exists.1 hreach.there
  refine ⟨rfl, rfl, rfl, hreach.nonempty, fun name hname => ⟨hreach.entryNames name hname, ?_⟩,
    fun above habove hne => ?_, ?_, haccepted, hreach.shallow⟩
  · exact fun hmem => hnul ⟨name, List.mem_append_right _ hname, hmem⟩
  · refine htree.directory_of_prefix he ((List.prefix_append_right_inj dir).2 habove) fun heq => ?_
    exact hne (List.append_cancel_left heq)
  · cases e with
    | file content => exact .inl ⟨content, he⟩
    | link target => exact .inr ⟨⟨target, he⟩, loc, bytes, hloc, hfile⟩
    | directory =>
      have hbelow := FileSystem.locate_below htree hroot hdir hreach.nonempty hreach.entryNames
        (by simp [he]) hreach.there hnul hlong
      rw [source_sourceFile, hbelow, Except.ok.injEq] at hloc
      rw [← hloc, he] at hfile
      cases hfile

theorem mem_iff_isResource (htree : fs.IsTree) (hroot : fs.locate root = .ok dir)
    (hdir : fs.entryAt dir = some .directory)
    (hscan : run fs root patterns recursive = .ok sources) :
    source ∈ sources ↔ IsResource fs root dir patterns recursive source := by
  rw [mem_iff_of_run htree hroot hdir hscan]
  constructor
  · rintro ⟨names, hreach, rfl, ⟨loc, bytes, hloc, hfile⟩, haccepted⟩
    exact isResource_sourceFile htree hroot hdir hreach hloc hfile haccepted
  · intro h
    have hlong : ¬ fs.TooLong (root.below source.relative.names) := fun hlong =>
      (exists_run_eq_ok_iff htree hroot hdir).1 ⟨sources, hscan⟩ _ h.inReach _ (.tooLong hlong)
    refine ⟨source.relative.names, h.inReach, h.eq_sourceFile, ?_, ?_⟩
    · rw [h.eq_below]
      rcases h.file with ⟨bytes, he⟩ | ⟨-, hled⟩
      · have hbelow := FileSystem.locate_below htree hroot hdir h.nonempty h.inReach.entryNames
          (by simp [he]) h.inReach.there (h.not_holdsNul hroot) hlong
        exact ⟨_, bytes, hbelow, he⟩
      · rwa [← h.eq_below]
    · rw [h.eq_below, name_below h.nonempty root []]
      exact List.any_eq_true.2 h.accepted

/-- A scan of a directory that comes to an end finds exactly the resource files, in the one order
they have. -/
theorem run_exact (htree : fs.IsTree) (hroot : fs.locate root = .ok dir)
    (hdir : fs.entryAt dir = some .directory)
    (hscan : run fs root patterns recursive = .ok sources) :
    Ordered sources ∧
      (∀ source, source ∈ sources ↔ IsResource fs root dir patterns recursive source) ∧
      ∀ found, Ordered found →
        (∀ source, source ∈ found ↔ IsResource fs root dir patterns recursive source) →
        found = sources := by
  have hordered := ordered_of_run hroot hdir hscan
  have hmem : ∀ source, source ∈ sources ↔ IsResource fs root dir patterns recursive source :=
    fun _ => mem_iff_isResource htree hroot hdir hscan
  exact ⟨hordered, hmem, fun found hfound hsame =>
    hfound.eq_of_mem_iff hordered fun source => (hsame source).trans (hmem source).symm⟩

/-! ## A root full of links -/

/-- A directory with a link to it. In it there are a file one directory further down, a link to that
file, a link to the directory it is in, and a link that leads to itself. -/
def linkedResources : FileSystem :=
  ((((((((FileSystem.empty .usual).set ["l"] (.link "d")).set ["d"] .directory).set
    ["d", "a"] .directory).set ["d", "a", "f.resx"] (.file [])).set
    ["d", "a.resx"] (.link "a/f.resx")).set ["d", "b.resx"] (.link "a")).set
    ["d", "c.resx"] (.link "c.resx"))

theorem linkedResources_isTree : linkedResources.IsTree := by
  have hin (dir : Location) (name : String) (e : Entry) {fs : FileSystem} (h : fs.IsTree)
      (hd : fs.entryAt dir = some .directory) (hfree : fs.entryAt (dir ++ [name]) = none) :
      (fs.set (dir ++ [name]) e).IsTree := h.set_child hd hfree
  have hlink := hin [] "l" (.link "d") (FileSystem.isTree_empty .usual) rfl rfl
  have hroot := hin [] "d" .directory hlink rfl rfl
  have hfile := hin ["d", "a"] "f.resx" (.file []) (hin ["d"] "a" .directory hroot rfl rfl) rfl rfl
  have hlinks := hin ["d"] "b.resx" (.link "a")
    (hin ["d"] "a.resx" (.link "a/f.resx") hfile rfl rfl) rfl rfl
  exact hin ["d"] "c.resx" (.link "c.resx") hlinks rfl rfl

def linkedRoot : Path := .ofString "/l"

/-- What is found there. By their text alone the two paths would stand the other way round. -/
def linkedSources : List SourceFile :=
  [sourceFile linkedRoot ["a", "f.resx"], sourceFile linkedRoot ["a.resx"]]

theorem run_exact_linkedResources :
    run linkedResources linkedRoot ["*.resx", "a?resx"] true = .ok linkedSources ∧
      Ordered linkedSources ∧
      (IsResource linkedResources linkedRoot ["d"] ["*.resx", "a?resx"] true
        (sourceFile linkedRoot ["a.resx"])) ∧
      ¬ IsResource linkedResources linkedRoot ["d"] ["*.resx", "a?resx"] true
        (sourceFile linkedRoot ["b.resx", "f.resx"]) := by
  have hscan : run linkedResources linkedRoot ["*.resx", "a?resx"] true = .ok linkedSources := rfl
  obtain ⟨hordered, hmem, -⟩ := run_exact linkedResources_isTree rfl rfl hscan
  exact ⟨hscan, hordered, (hmem _).1 (by decide), fun h => absurd ((hmem _).2 h) (by decide)⟩

end Scan

end ResourceAccessors
