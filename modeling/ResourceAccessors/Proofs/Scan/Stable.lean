import ResourceAccessors.Proofs.FileSystem.Faults
import ResourceAccessors.Proofs.FileSystem.Plain
import ResourceAccessors.Proofs.Scan.Below

/-! Scans that are not disturbed. Where there are no links, whether a scan can tell if an entry is
a file depends only on how the entry is spelled below the root and on the entry itself. Outputs
that no pattern accepts, and the directories added above them, are therefore passed over by a later
scan, which finds the files of the earlier one in the same order; but all of them have to be
spelled below the root in at most so many bytes as a path may have. -/
namespace ResourceAccessors
set_option autoImplicit false

def Entry.isFile : Entry → Bool
  | file _ => true
  | directory | link _ => false

namespace FileSystem

variable {fs after : FileSystem} {root : Path} {start dir : Location} {names rest : List String}

/-! ## Entries below a directory -/

theorem descend_append (hd : fs.entryAt dir = some .directory)
    (h : fs.descend start names = .at (.found dir)) :
    fs.descend start (names ++ rest) = fs.descend dir rest := by
  fun_induction descend fs start names with
  | case1 start =>
    simp only [Descent.at.injEq, Place.found.injEq] at h
    rw [h, List.nil_append]
  | case2 start names ih =>
    rw [List.cons_append, descend, if_pos rfl]
    exact ih h
  | case3 start names hdot ih =>
    rw [List.cons_append, descend, if_neg hdot, if_pos rfl]
    exact ih h
  | case4 => simp at h
  | case5 => simp at h
  | case6 => simp at h
  | case7 start name names h1 h2 hsize hdir ih =>
    rw [List.cons_append, descend, if_neg h1, if_neg h2, if_neg hsize, hdir]
    exact ih h
  | case8 start name names _ _ _ content hfile =>
    simp only [Descent.at.injEq, Place.found.injEq] at h
    rw [h, hd] at hfile
    simp at hfile
  | case9 => simp at h
  | case10 => simp at h

/-- The way down to an entry that is no link only meets names that are too long. -/
theorem descend_below (htree : fs.IsTree) (hnames : ∀ n ∈ names, Path.isEntryName n = true)
    (hlink : ∀ target, fs.entryAt (dir ++ names) ≠ some (.link target))
    (hthere : (fs.entryAt (dir ++ names)).isSome = true) :
    fs.descend dir names =
      if ∀ n ∈ names, n.utf8ByteSize ≤ maxNameBytes then .at (.found (dir ++ names))
      else .blocked .nameTooLong := by
  induction names generalizing dir with
  | nil => simp [descend]
  | cons name names ih =>
    obtain ⟨hname, hrest⟩ := List.forall_mem_cons.1 hnames
    obtain ⟨h1, h2⟩ := Path.ne_dot_of_isEntryName hname
    rw [descend, if_neg h1, if_neg h2]
    split
    · next hsize => rw [if_neg (by simp; omega)]
    · next hsize =>
      have happend : dir ++ name :: names = dir ++ [name] ++ names := by simp
      have hfits : (∀ n ∈ name :: names, n.utf8ByteSize ≤ maxNameBytes) ↔
          ∀ n ∈ names, n.utf8ByteSize ≤ maxNameBytes := by
        rw [List.forall_mem_cons]
        exact ⟨fun h => h.2, fun h => ⟨Nat.le_of_not_lt hsize, h⟩⟩
      simp only [hfits]
      cases names with
      | nil =>
        obtain ⟨e, he⟩ := Option.isSome_iff_exists.1 hthere
        rw [he]
        cases e with
        | directory => simp [descend]
        | file content => simp
        | link target => exact absurd he (hlink target)
      | cons next more =>
        rw [happend] at hlink hthere ⊢
        rw [htree.directory_of_append next more hthere]
        exact ih hrest hlink hthere

/-- What is asked of an entry below a root is told from its spelling and the entry itself. -/
theorem leadsTo_below (test : Entry → Bool) (htree : fs.IsTree) (hl : fs.LinkFree)
    (hroot : fs.locate root = .ok dir) (hdir : fs.entryAt dir = some .directory)
    (hnames : ∀ n ∈ names, Path.isEntryName n = true)
    (hthere : (fs.entryAt (dir ++ names)).isSome = true) :
    fs.leadsTo test (root.below names) =
      match checkPath (root.below names) with
      | .error .nulInPath => .ok false
      | .error fault => .error fault
      | .ok () =>
        if ∀ n ∈ names, n.utf8ByteSize ≤ maxNameBytes then
          .ok ((fs.entryAt (dir ++ names)).any test)
        else .error (.obstructed .nameTooLong (root.below names)) := by
  obtain ⟨-, slashed, hfollow, -⟩ := locate_eq_ok_iff.1 hroot
  have hdescend : fs.descend (fs.start (root.below names)) (root.below names).names =
      fs.descend dir names := descend_append hdir (hl.descend_of_follow hfollow).1
  rw [descend_below htree hnames (hl _) hthere] at hdescend
  cases hlooked : checkPath (root.below names) with
  | error fault =>
    have hobstacle : ∀ o q, fault = .obstructed o q → o = .nameTooLong := by
      rintro o q rfl
      unfold checkPath at hlooked
      split at hlooked
      · simp at hlooked
      · split at hlooked
        · simp only [Except.error.injEq, FileFault.obstructed.injEq] at hlooked
          exact hlooked.1.symm
        · simp at hlooked
    simp only [leadsTo, locate, arrive, hlooked]
    cases fault with
    | nulInPath | tooNested => rfl
    | obstructed o q => simp [hobstacle o q rfl, Obstacle.meansAbsent]
  | ok u =>
    split at hdescend
    · next hfits =>
      simp only [leadsTo, locate, arrive, hlooked, follow_of_descend hdescend, if_pos hfits,
        Bool.false_and, Bool.false_eq_true, if_false]
    · next hfits =>
      simp only [leadsTo, locate, arrive, hlooked, follow_of_blocked hdescend, if_neg hfits,
        Obstacle.meansAbsent, Bool.false_eq_true, if_false]

theorem isFile_eq (fs : FileSystem) (p : Path) : fs.isFile p = fs.leadsTo Entry.isFile p := by
  unfold isFile
  congr 1
  funext e
  cases e <;> rfl

end FileSystem

namespace Scan

variable {fs after : FileSystem} {root : Path} {dir : Location} {patterns : List String}
  {recursive : Bool} {names : List String} {outputs : List Location} {sources : List SourceFile}

theorem source_sourceFile (root : Path) (names : List String) :
    (sourceFile root names).source = root.below names := rfl

theorem faultAt_eq_none_iff : faultAt fs root names = none ↔
    ∃ isFile, fs.isFile (root.below names) = .ok isFile := by
  unfold faultAt
  rw [source_sourceFile]
  cases fs.isFile (root.below names) <;> simp

def taken (fs : FileSystem) (root : Path) (patterns : List String) (names : List String) : Bool :=
  isFileAt fs (sourceFile root names) && Pattern.anyAccepts patterns (root.below names).name

/-- A scan that goes deeper than one directory can list every directory on its way. -/
def Listable (fs : FileSystem) (recursive : Bool) (dir : Location) : Prop :=
  recursive = true → ∀ names ∈ fs.below (depthOf fs recursive) dir,
    fs.entryAt (dir ++ names) = some .directory → names.length ≤ fs.limits.listings.calls

theorem stopAt_listing_eq_none_iff : stopAt fs root recursive (.listing names) = none ↔
    (recursive = true → names.length ≤ fs.limits.listings.calls) := by
  cases recursive <;> simp [stopAt]

/-- What is below a directory is not as deep as a scan may go. -/
theorem below_depth (fs : FileSystem) (dir : Location) :
    ∃ n, fs.depth = n + 1 ∧ fs.below n dir = fs.below fs.depth dir := by
  refine ⟨_, rfl, ?_⟩
  exact FileSystem.below_eq_below (d := fs.depth - 1)
    (fun loc hloc => Nat.le_of_lt_succ (FileSystem.length_lt_depth hloc)) (Nat.le_add_left _ _)
    (Nat.le_trans (Nat.sub_le _ _) (Nat.le_add_left _ _))

theorem listing_mem_visits_depth_iff : Visit.listing names ∈ visits fs fs.depth dir ↔
    names = [] ∨ (names ∈ fs.below fs.depth dir ∧ fs.entryAt (dir ++ names) = some .directory) := by
  obtain ⟨n, hdepth, hbelow⟩ := below_depth fs dir
  rw [← hbelow, hdepth]
  exact listing_mem_visits_iff

theorem listings_pass_iff (root : Path) :
    (∀ names, Visit.listing names ∈ visits fs (depthOf fs recursive) dir →
      stopAt fs root recursive (.listing names) = none) ↔ Listable fs recursive dir := by
  simp only [stopAt_listing_eq_none_iff, Listable]
  cases recursive with
  | false => simp
  | true =>
    simp only [depthOf, if_true, listing_mem_visits_depth_iff, forall_const]
    constructor
    · exact fun h names hmem hdir => h names (.inr ⟨hmem, hdir⟩)
    · rintro h names (rfl | ⟨hmem, hdir⟩)
      · exact Nat.zero_le _
      · exact h names hmem hdir

/-- A scan of a directory comes to an end if it can tell of every entry whether it is a file and can
list every directory. -/
theorem run_eq_ok_iff (hroot : fs.locate root = .ok dir)
    (hdir : fs.entryAt dir = some .directory) :
    run fs root patterns recursive = .ok sources ↔
      ((∀ names ∈ fs.below (depthOf fs recursive) dir, faultAt fs root names = none) ∧
        Listable fs recursive dir) ∧
        sources = ((fs.below (depthOf fs recursive) dir).filter (taken fs root patterns)).map
          (sourceFile root) := by
  have hall : ((∀ names ∈ fs.below (depthOf fs recursive) dir, faultAt fs root names = none) ∧
        Listable fs recursive dir) ↔
      (visits fs (depthOf fs recursive) dir).findSome? (stopAt fs root recursive) = none := by
    rw [List.findSome?_eq_none_iff, ← listings_pass_iff root]
    constructor
    · rintro ⟨hentries, hlistings⟩ (names | names) hvisit
      · exact hentries names (entry_mem_visits_iff.1 hvisit)
      · exact hlistings names hvisit
    · intro h
      exact ⟨fun names hmem => h (.entry names) (entry_mem_visits_iff.2 hmem),
        fun names hvisit => h (.listing names) hvisit⟩
  have hfilter : (((fs.below (depthOf fs recursive) dir).map (sourceFile root)).filter
        (isFileAt fs)).filter (fun f => Pattern.anyAccepts patterns f.source.name) =
      ((fs.below (depthOf fs recursive) dir).filter (taken fs root patterns)).map
        (sourceFile root) := by
    rw [List.filter_filter, List.filter_map]
    congr 2
    funext names
    simp only [Function.comp_apply, taken, source_sourceFile, Bool.and_comm]
  have hisdir := FileSystem.isDirectory_eq_true_iff.2 ⟨dir, hroot, hdir⟩
  simp only [run, hisdir, hroot, files]
  rw [hall]
  split
  · next h =>
    split at h
    · next hfault => simp [hfault]
    · simp at h
  · next found h =>
    split at h
    · simp at h
    · next hnone =>
      rw [Except.ok.injEq] at h
      rw [← h, hfilter, Except.ok.injEq]
      exact ⟨fun hs => ⟨hnone, hs.symm⟩, fun hs => hs.2.symm⟩

theorem isFileAt_iff {source : SourceFile} : isFileAt fs source = true ↔
    ∃ loc bytes, fs.locate source.source = .ok loc ∧ fs.entryAt loc = some (.file bytes) := by
  have hisfile : isFileAt fs source = true ↔ fs.isFile source.source = .ok true := by
    rw [isFileAt]
    split
    · next h => simp [h]
    · next h => rw [h, Except.ok.injEq]
  rw [hisfile, FileSystem.isFile_eq_true_iff]
  simp only [FileSystem.read_eq_ok_iff]
  exact exists_comm

theorem exists_locate_of_run {source : SourceFile} (hroot : fs.locate root = .ok dir)
    (hdir : fs.entryAt dir = some .directory)
    (hscan : run fs root patterns recursive = .ok sources) (hsource : source ∈ sources) :
    ∃ loc, fs.locate source.source = .ok loc := by
  obtain ⟨-, rfl⟩ := (run_eq_ok_iff hroot hdir).1 hscan
  obtain ⟨names, hnames, rfl⟩ := List.mem_map.1 hsource
  have htaken := (List.mem_filter.1 hnames).2
  rw [taken, Bool.and_eq_true] at htaken
  obtain ⟨loc, -, hloc, -⟩ := isFileAt_iff.1 htaken.1
  exact ⟨loc, hloc⟩

/-! ## Outputs that are passed over -/

/-- A scan passes over an entry: it can tell that it does not take it, and if it is a directory it
can list it. -/
structure Passed (fs : FileSystem) (root : Path) (dir : Location) (patterns : List String)
    (recursive : Bool) (names : List String) : Prop where
  decided : faultAt fs root names = none
  left : taken fs root patterns names = false
  listed : recursive = true → fs.entryAt (dir ++ names) = some .directory →
    names.length ≤ fs.limits.listings.calls

/-- How far down a scan looks. -/
def reach (recursive : Bool) (names : List String) : List String :=
  if recursive then names else names.take 1

/-- An output below a directory that a scan of it does not take, that it can tell apart, and that
is not deeper than it goes. -/
structure PassedOver (listings : CallLimit) (root : Path) (dir : Location)
    (patterns : List String) (recursive : Bool) (out : Location) : Prop where
  rejected : Pattern.anyAccepts patterns (out.getLastD "") = false
  listed : recursive = true → (out.drop dir.length).length ≤ listings.calls
  fits : ∀ n ∈ out, n.utf8ByteSize ≤ maxNameBytes
  spelled : (root.below (reach recursive (out.drop dir.length))).toString.utf8ByteSize ≤
    maxPathBytes

theorem name_below (h : names ≠ []) (root : Path) (dir : Location) :
    (root.below names).name = (dir ++ names).getLastD "" := by
  simp only [Path.name, Path.below, List.getLastD_eq_getLast?, List.getLast?_append,
    List.getLast?_eq_some_getLast h, Option.some_or]

theorem prefix_reach_of_mem_below (h : names ∈ fs.below (depthOf fs recursive) dir) :
    names <+: reach recursive names := by
  unfold reach
  split
  · exact List.prefix_refl names
  · next hflat =>
    have hlength := (FileSystem.of_mem_below h).2.1
    rw [depthOf, if_neg hflat] at hlength
    exact List.prefix_take_iff.2 ⟨List.prefix_refl names, hlength⟩

theorem reach_mono {a b : List String} (h : a <+: b) : reach recursive a <+: reach recursive b := by
  unfold reach
  split
  · exact h
  · obtain ⟨more, rfl⟩ := h
    rw [List.take_append]
    exact List.prefix_append _ _

theorem below_depthOf (hk : fs.Keeps after) (recursive : Bool) (dir : Location) :
    fs.below (depthOf fs recursive) dir = fs.below (depthOf after recursive) dir := by
  cases recursive with
  | false => rfl
  | true =>
    refine FileSystem.below_eq_below (d := min fs.depth after.depth) (fun loc hloc => ?_) ?_ ?_
    · have hafter : (after.entryAt loc).isSome = true := by
        obtain ⟨e, he⟩ := Option.isSome_iff_exists.1 hloc
        obtain ⟨e', he', -⟩ := hk.entry he
        rw [he']
        rfl
      have h1 := FileSystem.length_lt_depth hloc
      have h2 := FileSystem.length_lt_depth hafter
      omega
    · simp only [depthOf, if_true]
      omega
    · simp only [depthOf, if_true]
      omega

/-- An entry that is spelled in few enough bytes can be told apart. If it is a directory, or no
pattern accepts its name, it is not taken. -/
theorem passed_over_of_short {n : Nat} (htree : fs.IsTree) (hl : fs.LinkFree)
    (hroot : fs.locate root = .ok dir) (hdir : fs.entryAt dir = some .directory)
    (hmem : names ∈ fs.below n dir) (hfits : ∀ m ∈ names, m.utf8ByteSize ≤ maxNameBytes)
    (hsize : (root.below names).toString.utf8ByteSize ≤ maxPathBytes)
    (hkind : Pattern.anyAccepts patterns ((dir ++ names).getLastD "") = false ∨
      fs.entryAt (dir ++ names) = some .directory) :
    faultAt fs root names = none ∧ taken fs root patterns names = false := by
  obtain ⟨hne, -, hnames, hthere⟩ := FileSystem.of_mem_below hmem
  have hlooked : ∃ isFile, fs.isFile (root.below names) = .ok isFile ∧
      (isFile = true → fs.entryAt (dir ++ names) ≠ some .directory) := by
    rw [FileSystem.isFile_eq, FileSystem.leadsTo_below _ htree hl hroot hdir hnames hthere,
      if_pos hfits]
    by_cases hnul : (root.below names).HoldsNul
    · rw [FileSystem.checkPath_eq_nul_iff.2 hnul]
      exact ⟨false, rfl, by simp⟩
    · rw [FileSystem.checkPath_eq_ok_iff.2 ⟨hnul, hsize⟩]
      refine ⟨_, rfl, fun h hdirectory => ?_⟩
      simp [hdirectory, Entry.isFile] at h
  obtain ⟨isFile, hok, hnot⟩ := hlooked
  refine ⟨faultAt_eq_none_iff.2 ⟨isFile, hok⟩, ?_⟩
  rw [taken, isFileAt, source_sourceFile, hok]
  rcases hkind with hrejected | hdirectory
  · rw [name_below hne root dir, hrejected, Bool.and_false]
  · have : isFile = false := Bool.eq_false_iff.2 fun h => hnot h hdirectory
    simp [this]

section

variable (hafter : after.IsTree) (hlafter : after.LinkFree) (hg : FileSystem.Grown outputs fs after)
  (hroot : fs.locate root = .ok dir) (hdir : fs.entryAt dir = some .directory)
include hafter hlafter hg hroot hdir

theorem new_passed_over
    (hout : ∀ out ∈ outputs, dir <+: out →
      PassedOver fs.limits.listings root dir patterns recursive out)
    (hmem : names ∈ after.below (depthOf after recursive) dir)
    (hnew : fs.entryAt (dir ++ names) = none) :
    Passed after root dir patterns recursive names := by
  obtain ⟨hne, -, -, hthere⟩ := FileSystem.of_mem_below hmem
  have habove : ∃ out ∈ outputs, dir ++ names <+: out ∧
      (dir ++ names = out ∨ after.entryAt (dir ++ names) = some .directory) := by
    by_cases hmemout : dir ++ names ∈ outputs
    · exact ⟨_, hmemout, List.prefix_refl _, .inl rfl⟩
    · rcases hg.others hmemout with heq | ⟨-, hdirectory, out, hm, hpre⟩
      · rw [heq, hnew] at hthere
        simp at hthere
      · exact ⟨out, hm, hpre, .inr hdirectory⟩
  obtain ⟨out, hmemout, hpre, hkind⟩ := habove
  have hpassed := hout out hmemout ((List.prefix_append dir names).trans hpre)
  have hbelow : names <+: out.drop dir.length := by
    obtain ⟨more, rfl⟩ := hpre
    exact ⟨more, by simp⟩
  have hsize : (root.below names).toString.utf8ByteSize ≤ maxPathBytes :=
    Nat.le_trans (Path.size_below_le hne ((prefix_reach_of_mem_below hmem).trans (reach_mono hbelow)))
      hpassed.spelled
  have hfits : ∀ n ∈ names, n.utf8ByteSize ≤ maxNameBytes := fun n hn =>
    hpassed.fits n (List.mem_of_mem_drop (hbelow.subset hn))
  have hkind' : Pattern.anyAccepts patterns ((dir ++ names).getLastD "") = false ∨
      after.entryAt (dir ++ names) = some .directory := by
    rcases hkind with heq | hdirectory
    · exact .inl (by rw [heq, hpassed.rejected])
    · exact .inr hdirectory
  obtain ⟨hdecided, hleft⟩ := passed_over_of_short hafter hlafter (hg.keeps.locate hroot)
    (hg.keeps.directory hdir) hmem hfits hsize hkind'
  refine ⟨hdecided, hleft, fun hrecursive _ => ?_⟩
  rw [hg.keeps.limits]
  exact Nat.le_trans hbelow.length_le (hpassed.listed hrecursive)

/-- A scan takes an entry that was there as it did before. -/
theorem old_taken
    (hrejected : ∀ out ∈ outputs, dir <+: out →
      Pattern.anyAccepts patterns (out.getLastD "") = false)
    (htree : fs.IsTree) (hl : fs.LinkFree)
    (hmem : names ∈ fs.below (depthOf fs recursive) dir) :
    (faultAt fs root names = none → faultAt after root names = none) ∧
      taken after root patterns names = taken fs root patterns names := by
  obtain ⟨hne, -, hnames, hthere⟩ := FileSystem.of_mem_below hmem
  obtain ⟨e, he⟩ := Option.isSome_iff_exists.1 hthere
  obtain ⟨e', he', -⟩ := hg.keeps.entry he
  have hfs := FileSystem.leadsTo_below Entry.isFile htree hl hroot hdir hnames hthere
  have hnow := FileSystem.leadsTo_below Entry.isFile hafter hlafter (hg.keeps.locate hroot)
    (hg.keeps.directory hdir) hnames (by rw [he']; rfl)
  constructor
  · intro hnone
    obtain ⟨isFile, hok⟩ := faultAt_eq_none_iff.1 hnone
    refine faultAt_eq_none_iff.2 ?_
    rw [FileSystem.isFile_eq] at hok ⊢
    rw [hfs] at hok
    rw [hnow]
    cases hlooked : FileSystem.checkPath (root.below names) with
    | error fault =>
      rw [hlooked] at hok
      cases fault with
      | nulInPath => exact ⟨false, rfl⟩
      | obstructed o q => simp at hok
      | tooNested reason => simp at hok
    | ok u =>
      simp only [hlooked] at hok
      by_cases hfits : ∀ n ∈ names, n.utf8ByteSize ≤ maxNameBytes
      · exact ⟨_, if_pos hfits⟩
      · rw [if_neg hfits] at hok
        simp at hok
  · -- an output that was overwritten is no longer the same entry, but no pattern accepts its name
    by_cases hmemout : dir ++ names ∈ outputs
    · have hname := hrejected _ hmemout (List.prefix_append dir names)
      rw [taken, taken, name_below hne root dir, hname, Bool.and_false, Bool.and_false]
    · rw [hg.entryAt_eq he hmemout, ← he, ← hfs] at hnow
      rw [taken, taken, isFileAt, isFileAt, source_sourceFile, FileSystem.isFile_eq,
        FileSystem.isFile_eq, hnow]

/-- A scan finds what it found before if it passes over all that is new. -/
theorem run_of_new
    (hrejected : ∀ out ∈ outputs, dir <+: out →
      Pattern.anyAccepts patterns (out.getLastD "") = false)
    (hnew : ∀ {names}, names ∈ after.below (depthOf after recursive) dir →
      fs.entryAt (dir ++ names) = none → Passed after root dir patterns recursive names)
    (htree : fs.IsTree) (hl : fs.LinkFree)
    (hscan : run fs root patterns recursive = .ok sources) :
    run after root patterns recursive = .ok sources := by
  obtain ⟨⟨hnone, hlistable⟩, rfl⟩ := (run_eq_ok_iff hroot hdir).1 hscan
  have hbelow : fs.below (depthOf fs recursive) dir =
      (after.below (depthOf after recursive) dir).filter
        fun names => (fs.entryAt (dir ++ names)).isSome := by
    rw [below_depthOf hg.keeps, FileSystem.below_eq_filter hg.keeps htree]
  have hold : ∀ {names}, names ∈ fs.below (depthOf fs recursive) dir →
      (faultAt fs root names = none → faultAt after root names = none) ∧
        taken after root patterns names = taken fs root patterns names :=
    fun hmem => old_taken hafter hlafter hg hroot hdir hrejected htree hl hmem
  have hthere : ∀ {names e}, names ∈ after.below (depthOf after recursive) dir →
      fs.entryAt (dir ++ names) = some e → names ∈ fs.below (depthOf fs recursive) dir := by
    intro names e hmem he
    rw [hbelow, List.mem_filter, he]
    exact ⟨hmem, rfl⟩
  refine (run_eq_ok_iff (hg.keeps.locate hroot) (hg.keeps.directory hdir)).2 ⟨⟨?_, ?_⟩, ?_⟩
  · intro names hmem
    cases he : fs.entryAt (dir ++ names) with
    | none => exact (hnew hmem he).decided
    | some e => exact (hold (hthere hmem he)).1 (hnone names (hthere hmem he))
  · intro hrecursive names hmem hdirectory
    cases he : fs.entryAt (dir ++ names) with
    | none => exact (hnew hmem he).listed hrecursive hdirectory
    | some e =>
      rw [hg.keeps.limits]
      exact hlistable hrecursive names (hthere hmem he) ((hg.keeps.directory_iff he).1 hdirectory)
  · rw [hbelow, List.filter_filter]
    congr 1
    refine List.filter_congr fun names hmem => ?_
    cases he : fs.entryAt (dir ++ names) with
    | none => simp [(hnew hmem he).left]
    | some e => simp [(hold (hthere hmem he)).2]

/-- A scan finds what it found before outputs were written that it passes over. -/
theorem run_of_grown
    (hout : ∀ out ∈ outputs, dir <+: out →
      PassedOver fs.limits.listings root dir patterns recursive out)
    (htree : fs.IsTree) (hl : fs.LinkFree)
    (hscan : run fs root patterns recursive = .ok sources) :
    run after root patterns recursive = .ok sources :=
  run_of_new hafter hlafter hg hroot hdir (fun out hmem hbelow => (hout out hmem hbelow).rejected)
    (fun hmem hnew => new_passed_over hafter hlafter hg hroot hdir hout hmem hnew) htree hl hscan

end

end Scan

end ResourceAccessors
