import ResourceAccessors.Proofs.FileSystem.Waiting

/-! Two file systems that are handled alike. One has grown out of the other: it holds some outputs
and directories above them that the other may lack. An operation on a path that none of the outputs
is on the way of then ends alike in both, and leaves the one grown out of the other as before. Only
a lookup can tell them apart: behind a directory that the other lacks it may meet a name that is
too long, where the other has nothing. -/
namespace ResourceAccessors.FileSystem
set_option autoImplicit false

variable {fs lean full lean' full' : FileSystem} {p : Path} {dir loc : Location}
  {names : List String} {outputs : List Location} {fault : FileFault} {bytes : List UInt8}
  {limit : CallLimit}

/-! ## The same walk -/

theorem descend_congr (hnames : ∀ n ∈ names, Path.isEntryName n = true)
    (h : ∀ {way}, way <+: names → way ≠ [] →
      full.entryAt (dir ++ way) = lean.entryAt (dir ++ way)) :
    full.descend dir names = lean.descend dir names := by
  induction names generalizing dir with
  | nil => simp [descend]
  | cons name names ih =>
    obtain ⟨hname, hrest⟩ := List.forall_mem_cons.1 hnames
    obtain ⟨h1, h2⟩ := Path.ne_dot_of_isEntryName hname
    have hfirst : full.entryAt (dir ++ [name]) = lean.entryAt (dir ++ [name]) :=
      h (by simp) (by simp)
    have hdeeper : full.descend (dir ++ [name]) names = lean.descend (dir ++ [name]) names := by
      refine ih hrest fun {way} hway _ => ?_
      simpa using h (List.cons_prefix_cons.2 ⟨rfl, hway⟩) (by simp)
    rw [descend, descend, if_neg h1, if_neg h1, if_neg h2, if_neg h2, hfirst, hdeeper]

theorem LinkFree.follow_congr (hl : lean.LinkFree) {links : Nat} {slashed : Bool}
    (h : full.descend dir names = lean.descend dir names) :
    full.follow links slashed dir names = lean.follow links slashed dir names := by
  unfold follow
  rw [h]
  cases hd : lean.descend dir names with
  | «at» place => rfl
  | blocked o => rfl
  | link d target rest => exact absurd hd (hl.descend_ne_link dir names)

theorem LinkFree.followToWrite_congr (hl : lean.LinkFree) {links : Nat}
    (h : full.descend dir names = lean.descend dir names) :
    full.followToWrite links dir names = lean.followToWrite links dir names := by
  unfold followToWrite
  rw [h]
  cases hd : lean.descend dir names with
  | «at» place => rfl
  | blocked o => rfl
  | link d target rest => exact absurd hd (hl.descend_ne_link dir names)

/-! ## Paths with the same entries on their way -/

section

variable (hl : lean.LinkFree) (hp : p.Plain)
  (hway : ∀ {way}, way <+: p.names → full.entryAt way = lean.entryAt way)
include hl hp hway

theorem locate_congr : full.locate p = lean.locate p := by
  have hdescend : full.descend [] p.names = lean.descend [] p.names :=
    descend_congr hp.entryNames fun hpre _ => hway hpre
  unfold locate arrive start
  rw [if_pos hp.absolute, if_pos hp.absolute, hl.follow_congr hdescend]
  cases checkPath p with
  | error fault => rfl
  | ok u =>
    cases hf : lean.follow maxLinks false [] p.names with
    | error o => rfl
    | ok arrival =>
      obtain ⟨place, slashed⟩ := arrival
      obtain rfl : slashed = false := (hl.descend_of_follow hf).2
      cases place <;> rfl

theorem hasEntry_congr : full.hasEntry p = lean.hasEntry p ∧ full.read p = lean.read p := by
  unfold hasEntry leadsTo read
  rw [locate_congr hl hp hway]
  cases hloc : lean.locate p with
  | error fault => cases fault <;> exact ⟨rfl, rfl⟩
  | ok loc =>
    simp only
    rw [(hl.locate_plain hp hloc).1, hway (List.prefix_refl _)]
    exact ⟨rfl, rfl⟩

theorem arriveToWrite_congr : full.arriveToWrite p = lean.arriveToWrite p := by
  have hdescend : full.descend [] p.names = lean.descend [] p.names :=
    descend_congr hp.entryNames fun hpre _ => hway hpre
  unfold arriveToWrite start
  rw [if_pos hp.absolute, if_pos hp.absolute, hl.followToWrite_congr hdescend]

end

/-! ## One file system grown out of the other -/

theorem Grown.set {e : Entry} (h : Grown outputs lean full) (hloc : loc ≠ []) :
    Grown outputs (lean.set loc e) (full.set loc e) := by
  refine ⟨⟨fun {l e'} he => ?_, h.keeps.working, h.keeps.limits⟩, fun {l} hl => ?_⟩
  · rw [entryAt_set _ _ _ _ hloc] at he ⊢
    split at he
    · next hsame => exact ⟨e', by rw [if_pos hsame, he], .refl e'⟩
    · next hne =>
      rw [if_neg hne]
      exact h.keeps.entry he
  · rw [entryAt_set _ _ _ _ hloc, entryAt_set _ _ _ _ hloc]
    by_cases hsame : l = loc
    · exact .inl (by rw [if_pos hsame, if_pos hsame])
    · rw [if_neg hsame, if_neg hsame]
      exact h.others hl

/-- None of the outputs is on the way along some names. -/
def Aside (outputs : List Location) (names : List String) : Prop :=
  ∀ out ∈ outputs, ¬ out <+: names

theorem Aside.of_prefix {way : Location} (h : Aside outputs names) (hpre : way <+: names) :
    Aside outputs way :=
  fun out hout hle => h out hout (hle.trans hpre)

theorem Grown.way (h : Grown outputs lean full) (haside : Aside outputs names) {way : Location}
    (hpre : way <+: names) :
    full.entryAt way = lean.entryAt way ∨
      (lean.entryAt way = none ∧ full.entryAt way = some .directory ∧ outputs ≠ []) := by
  rcases h.others fun hmem => haside way hmem hpre with heq | ⟨hfree, hdir, out, hout, -⟩
  · exact .inl heq
  · exact .inr ⟨hfree, hdir, List.ne_nil_of_mem hout⟩

theorem Grown.open_iff (h : Grown outputs lean full) (haside : Aside outputs names) :
    full.Open names ↔ lean.Open names := by
  have hfile : ∀ {way bytes}, way <+: names →
      (full.entryAt way = some (.file bytes) ↔ lean.entryAt way = some (.file bytes)) := by
    intro way bytes hpre
    rcases h.way haside hpre with heq | ⟨hfree, hdir, -⟩
    · rw [heq]
    · simp [hfree, hdir]
  constructor
  · intro hopen
    exact ⟨hopen.fits, fun hpre hf => hopen.noFile hpre ((hfile hpre).2 hf)⟩
  · intro hopen
    exact ⟨hopen.fits, fun hpre hf => hopen.noFile hpre ((hfile hpre).1 hf)⟩

/-- None of the outputs is on the way along a path, and the path is not on the way to one. -/
def Clear (outputs : List Location) (p : Path) : Prop :=
  ∀ out ∈ outputs, ¬ out <+: p.names ∧ ¬ p.names <+: out

theorem Clear.aside (h : Clear outputs p) : Aside outputs p.names :=
  fun out hout => (h out hout).1

theorem Clear.entryAt_eq (h : Clear outputs p) (hgrown : Grown outputs lean full) :
    full.entryAt p.names = lean.entryAt p.names := by
  have hnot : p.names ∉ outputs := fun hmem => (h _ hmem).1 (List.prefix_refl _)
  rcases hgrown.others hnot with heq | ⟨-, -, out, hout, hpre⟩
  · exact heq
  · exact absurd hpre (h out hout).2

/-- The same working directory and the same limits. -/
def SameSetting (lean full : FileSystem) : Prop :=
  full.workingDirectory = lean.workingDirectory ∧ full.limits = lean.limits

theorem Keeps.sameSetting (h : lean.Keeps full) : SameSetting lean full :=
  ⟨h.working, h.limits⟩

theorem SameSetting.symm (h : SameSetting lean full) : SameSetting full lean :=
  ⟨h.1.symm, h.2.symm⟩

theorem SameSetting.trans (h : SameSetting fs lean) (h' : SameSetting lean full) :
    SameSetting fs full :=
  ⟨h'.1.trans h.1, h'.2.trans h.2⟩

/-- Directories laid along the same names in both leave one grown out of the other. -/
theorem Grown.laid (h : Grown outputs lean full) (haside : Aside outputs names)
    (hlean : Laid lean names lean') (hfull : Laid full names full')
    (hsetting : SameSetting lean' full') : Grown outputs lean' full' := by
  have hsame : ∀ {loc}, (loc <+: names ∧ lean.Open loc) ∨
      (lean'.entryAt loc = lean.entryAt loc ∧ full'.entryAt loc = full.entryAt loc) := by
    intro loc
    by_cases hlaid : loc <+: names ∧ lean.Open loc
    · exact .inl hlaid
    · refine .inr ⟨hlean.others hlaid, hfull.others fun hboth => hlaid ⟨hboth.1, ?_⟩⟩
      exact (h.open_iff (haside.of_prefix hboth.1)).1 hboth.2
  have hboth : ∀ {loc}, loc <+: names → lean.Open loc →
      lean'.entryAt loc = some .directory ∧ full'.entryAt loc = some .directory :=
    fun hpre hopen =>
      ⟨hlean.laid hpre hopen, hfull.laid hpre ((h.open_iff (haside.of_prefix hpre)).2 hopen)⟩
  refine ⟨⟨fun {loc e} he => ?_, hsetting.1, hsetting.2⟩, fun {loc} hloc => ?_⟩
  · rcases @hsame loc with ⟨hpre, hopen⟩ | ⟨hl, hf⟩
    · obtain ⟨hl, hf⟩ := hboth hpre hopen
      exact ⟨e, by rw [hf, ← hl, he], .refl e⟩
    · rw [hl] at he
      rw [hf]
      exact h.keeps.entry he
  · rcases @hsame loc with ⟨hpre, hopen⟩ | ⟨hl, hf⟩
    · obtain ⟨hl, hf⟩ := hboth hpre hopen
      exact .inl (by rw [hf, hl])
    · rw [hl, hf]
      exact h.others hloc

/-! ## The same change in both -/

/-- Two trees without links, one grown out of the other. -/
structure Alike (outputs : List Location) (lean full : FileSystem) : Prop where
  grown : Grown outputs lean full
  leanTree : lean.IsTree
  fullTree : full.IsTree
  leanLinkFree : lean.LinkFree
  fullLinkFree : full.LinkFree

theorem names_ne_nil_of_unlooked (hlooked : checkPath p = .error fault) : p.names ≠ [] := by
  intro hnil
  have hok : ∀ anchor : Anchor, checkPath ⟨anchor, []⟩ = .ok () := by
    intro anchor
    cases anchor <;> rfl
  have hp : p = ⟨p.anchor, []⟩ := by rw [← hnil]
  rw [hp, hok] at hlooked
  simp at hlooked

theorem makeDirectories_of_unlooked (fs : FileSystem) (limit : CallLimit)
    (hlooked : checkPath p = .error fault) :
    ∃ other, fs.makeDirectories limit p = (.error other, fs) := by
  have hpos := List.length_pos_iff.2 (names_ne_nil_of_unlooked hlooked)
  obtain ⟨n, hn⟩ := Nat.exists_eq_add_one_of_ne_zero (Nat.ne_of_gt hpos)
  have htake : p.take (n + 1) = p := Path.take_of_length_le (Nat.le_of_eq hn)
  have hshallow : ¬ fs.TooDeep limit p := by
    have hwaits : ¬ fs.Waits (p.take (n + 1)) := by
      simp [htake, Waits, hlooked]
    rw [TooDeep, hn, waiting_succ_of_not_waits hwaits]
    exact Nat.not_lt_zero _
  have hmake : fs.makeDirectory p = .error fault := by simp only [makeDirectory, hlooked]
  have hensure : ∃ other, fs.ensureDirectory p = .error other ∧
      ∀ q, other ≠ .obstructed .notFound q := by
    unfold ensureDirectory
    rcases checkPath_eq_error hlooked with rfl | rfl
    · rw [hmake]
      exact ⟨_, rfl, by simp⟩
    · have hdir : fs.isDirectory p = .error (.obstructed .nameTooLong p) := by
        simp only [isDirectory, leadsTo, locate, arrive, hlooked]
        rfl
      rw [hmake, hdir]
      exact ⟨_, rfl, by simp⟩
  obtain ⟨other, hother, hnot⟩ := hensure
  refine ⟨other, ?_⟩
  rw [makeDirectories_of_not_tooDeep hshallow, hn]
  exact makeDirectoriesTo_of_fault (by rw [htake, hother]) hnot

theorem Alike.not_tooDeep (h : Alike outputs lean full) (hshallow : ¬ lean.TooDeep limit p) :
    ¬ full.TooDeep limit p :=
  fun hdeep => hshallow (hdeep.of_keeps h.grown.keeps h.leanTree)

theorem Alike.makeDirectories (h : Alike outputs lean full) (hp : p.Plain)
    (haside : Aside outputs p.names) (hshallow : ¬ lean.TooDeep limit p) :
    ((full.makeDirectories limit p).1 = .ok () ↔ (lean.makeDirectories limit p).1 = .ok ()) ∧
      Alike outputs (lean.makeDirectories limit p).2 (full.makeDirectories limit p).2 := by
  have hmlean := made_makeDirectories lean limit p
  have hmfull := made_makeDirectories full limit p
  cases hlooked : checkPath p with
  | error fault =>
    obtain ⟨e, he⟩ := makeDirectories_of_unlooked lean limit hlooked
    obtain ⟨e', he'⟩ := makeDirectories_of_unlooked full limit hlooked
    rw [he, he']
    exact ⟨iff_of_false (by simp) (by simp), h⟩
  | ok u =>
    obtain ⟨hlean, hoklean⟩ :=
      laid_makeDirectories h.leanLinkFree h.leanTree hp hlooked hshallow
    obtain ⟨hfull, hokfull⟩ :=
      laid_makeDirectories h.fullLinkFree h.fullTree hp hlooked (h.not_tooDeep hshallow)
    have hsetting : SameSetting (lean.makeDirectories limit p).2 (full.makeDirectories limit p).2 :=
      (hmlean.keeps.sameSetting.symm.trans h.grown.keeps.sameSetting).trans
        hmfull.keeps.sameSetting
    exact ⟨by rw [hokfull, hoklean, h.grown.open_iff haside],
      h.grown.laid haside hlean hfull hsetting, hmlean.isTree h.leanTree, hmfull.isTree h.fullTree,
      (hmlean.grown h.leanLinkFree hp (List.prefix_refl _)).1,
      (hmfull.grown h.fullLinkFree hp (List.prefix_refl _)).1⟩

/-- A file is written alike where the entries on its way are the same. -/
theorem Grown.write (h : Grown outputs lean full) (hl : lean.LinkFree) (hp : p.Plain)
    (hway : ∀ {way}, way <+: p.names → full.entryAt way = lean.entryAt way) (bytes : List UInt8) :
    (∃ fault, lean.write p bytes = .error fault ∧ full.write p bytes = .error fault) ∨
      ∃ lean' full', lean.write p bytes = .ok lean' ∧ full.write p bytes = .ok full' ∧
        Grown outputs lean' full' := by
  unfold FileSystem.write
  rw [arriveToWrite_congr hl hp hway]
  cases harrive : lean.arriveToWrite p with
  | error fault => exact .inl ⟨fault, rfl, rfl⟩
  | ok place =>
    cases place with
    | vacant dir name => exact .inr ⟨_, _, rfl, rfl, h.set (by simp)⟩
    | found loc =>
      have hdescend := hl.descend_of_followToWrite (arriveToWrite_ok harrive).2
      rw [start, if_pos hp.absolute] at hdescend
      obtain rfl : loc = p.names := (descend_plain hp.entryNames hdescend).1
      simp only
      rw [hway (List.prefix_refl _)]
      cases he : lean.entryAt p.names with
      | none => exact .inl ⟨_, rfl, rfl⟩
      | some e =>
        cases e with
        | directory => exact .inl ⟨_, rfl, rfl⟩
        | link target => exact .inl ⟨_, rfl, rfl⟩
        | file old =>
          refine .inr ⟨_, _, rfl, rfl, h.set ?_⟩
          intro hnil
          simp [hnil] at he

theorem Alike.write (h : Alike outputs lean full) (hp : p.Plain)
    (hway : ∀ {way}, way <+: p.names → full.entryAt way = lean.entryAt way) (bytes : List UInt8) :
    (∃ fault, lean.write p bytes = .error fault ∧ full.write p bytes = .error fault) ∨
      ∃ lean' full', lean.write p bytes = .ok lean' ∧ full.write p bytes = .ok full' ∧
        Alike outputs lean' full' := by
  rcases h.grown.write h.leanLinkFree hp hway bytes with
    hfails | ⟨lean', full', hlean, hfull, hgrown⟩
  · exact .inl hfails
  · obtain ⟨place, hwlean⟩ := written_of_write hlean
    obtain ⟨place', hwfull⟩ := written_of_write hfull
    exact .inr ⟨lean', full', hlean, hfull, hgrown, hwlean.isTree h.leanTree,
      hwfull.isTree h.fullTree, (hwlean.grown h.leanTree h.leanLinkFree hp).1,
      (hwfull.grown h.fullTree h.fullLinkFree hp).1⟩

/-! ## Lookups -/

/-- A directory that is there and a name that is too long behind it. -/
def EndsTooLong (fs : FileSystem) (names : List String) : Prop :=
  ∃ way name, way ++ [name] <+: names ∧ fs.entryAt way = some .directory ∧
    maxNameBytes < name.utf8ByteSize

theorem Grown.endsTooLong (h : Grown outputs lean full) (hl : lean.EndsTooLong names) :
    full.EndsTooLong names := by
  obtain ⟨way, name, hpre, hdir, hsize⟩ := hl
  exact ⟨way, name, hpre, h.keeps.directory hdir, hsize⟩

/-- What is missing or a file is met before a name that is too long. -/
theorem IsTree.not_endsTooLong (htree : fs.IsTree) {way : Location} (hpre : way <+: names)
    (hfits : Fits way) (hnot : fs.entryAt way ≠ some .directory) : ¬ fs.EndsTooLong names := by
  rintro ⟨higher, name, hhigher, hdir, hsize⟩
  rcases List.prefix_or_prefix_of_prefix hpre hhigher with hle | hle
  · rcases List.prefix_concat_iff.1 hle with rfl | hle
    · exact not_prefix_of_tooLong hsize hfits (List.prefix_refl _)
    · exact hnot (htree.directory_prefix hdir hle)
  · exact not_prefix_of_tooLong hsize hfits hle

/-- Whether a path leads to an entry: yes, no, or it cannot be told. -/
theorem LinkFree.hasEntry_cases (hl : fs.LinkFree) (htree : fs.IsTree) (hp : p.Plain)
    (hlooked : checkPath p = .ok ()) :
    (fs.hasEntry p = .ok true ∧ ∃ e, fs.entryAt p.names = some e) ∨
      (fs.hasEntry p = .ok false ∧ ¬ fs.EndsTooLong p.names) ∨
        (fs.hasEntry p = .error (.obstructed .nameTooLong p) ∧ fs.EndsTooLong p.names) := by
  have hm := hl.met hp.entryNames (entryAt_nil fs)
  generalize hd : fs.descend [] p.names = d at hm
  unfold hasEntry leadsTo FileSystem.locate arrive start
  rw [hlooked, if_pos hp.absolute]
  unfold follow
  rw [hd]
  cases hm with
  | found e hfits he =>
    refine .inl ⟨?_, e, he⟩
    simp only [Bool.false_and, Bool.false_eq_true, if_false, he, Option.any_some]
  | vacant way name hnames hfits hdir hfree =>
    refine .inr (.inl ⟨rfl, ?_⟩)
    exact htree.not_endsTooLong (List.prefix_refl _) hfits (by simp_all)
  | missing way hpre hne hfits hfree =>
    exact .inr (.inl ⟨rfl, htree.not_endsTooLong hpre hfits (by simp_all)⟩)
  | file way bytes hpre hne hfits hfile =>
    exact .inr (.inl ⟨rfl, htree.not_endsTooLong hpre hfits (by simp_all)⟩)
  | tooLong way name hpre hdir hsize =>
    exact .inr (.inr ⟨rfl, way, name, hpre, hdir, hsize⟩)

theorem hasEntry_of_unlooked (full lean : FileSystem) (hlooked : checkPath p = .error fault) :
    full.hasEntry p = lean.hasEntry p ∧ lean.hasEntry p ≠ .ok true := by
  have hlocate : ∀ fs : FileSystem, fs.locate p = .error fault := by
    intro fs
    simp only [FileSystem.locate, arrive, hlooked]
  unfold hasEntry leadsTo
  rw [hlocate full, hlocate lean]
  rcases checkPath_eq_error hlooked with rfl | rfl
  · exact ⟨rfl, by simp⟩
  · exact ⟨rfl, by simp [Obstacle.meansAbsent]⟩

/-- Looking up a path comes to the same in both, unless a name that is too long is met in one of
them only. -/
theorem Alike.lookup (h : Alike outputs lean full) (hp : p.Plain) (hclear : Clear outputs p) :
    (full.hasEntry p = lean.hasEntry p ∧
        (lean.hasEntry p = .ok true → full.read p = lean.read p)) ∨
      (lean.hasEntry p = .ok false ∧ full.hasEntry p = .error (.obstructed .nameTooLong p) ∧
        full.EndsTooLong p.names ∧ checkPath p = .ok () ∧ outputs ≠ []) := by
  by_cases hway : ∀ {way}, way <+: p.names → full.entryAt way = lean.entryAt way
  · obtain ⟨hentry, hread⟩ := hasEntry_congr h.leanLinkFree hp hway
    exact .inl ⟨hentry, fun _ => hread⟩
  · have hdiffers : ∃ way, way <+: p.names ∧ full.entryAt way ≠ lean.entryAt way := by
      refine Classical.byContradiction fun hno => hway fun {way} hpre => ?_
      exact Classical.byContradiction fun hne => hno ⟨way, hpre, hne⟩
    obtain ⟨way, hpre, hne⟩ := hdiffers
    obtain ⟨hfree, -, houtputs⟩ := (h.grown.way hclear.aside hpre).resolve_left hne
    -- below what the one of them lacks it has nothing
    have hnone : lean.entryAt p.names = none := h.leanTree.free_of_prefix hfree hpre
    cases hlooked : checkPath p with
    | error fault =>
      obtain ⟨hentry, hnot⟩ := hasEntry_of_unlooked full lean hlooked
      exact .inl ⟨hentry, fun htrue => absurd htrue hnot⟩
    | ok u =>
      rcases h.leanLinkFree.hasEntry_cases h.leanTree hp hlooked with
        ⟨-, e, he⟩ | ⟨hlean, -⟩ | ⟨hlean, hends⟩
      · simp [hnone] at he
      · rcases h.fullLinkFree.hasEntry_cases h.fullTree hp hlooked with
          ⟨-, e, he⟩ | ⟨hfull, -⟩ | ⟨hfull, hends⟩
        · simp [hclear.entryAt_eq h.grown, hnone] at he
        · exact .inl ⟨by rw [hfull, hlean], by simp [hlean]⟩
        · exact .inr ⟨hlean, hfull, hends, rfl, houtputs⟩
      · rcases h.fullLinkFree.hasEntry_cases h.fullTree hp hlooked with
          ⟨-, e, he⟩ | ⟨-, hnot⟩ | ⟨hfull, -⟩
        · simp [hclear.entryAt_eq h.grown, hnone] at he
        · exact absurd (h.grown.endsTooLong hends) hnot
        · exact .inl ⟨by rw [hfull, hlean], by simp [hlean]⟩

/-! ## Behind the directories above a path -/

theorem checkPath_parent (hlooked : checkPath p = .ok ()) : checkPath p.parent = .ok () := by
  cases hparent : checkPath p.parent with
  | ok u => rfl
  | error fault =>
    have hne := names_ne_nil_of_unlooked hparent
    rw [Path.parent, List.dropLast_eq_take] at hne hparent
    have hok := checkPath_take hlooked hne
    rw [Path.take, hparent] at hok
    simp at hok

theorem prefix_parent_or_eq {way : Location} (hpre : way <+: p.names) :
    way <+: p.parent.names ∨ way = p.names := by
  by_cases hnil : p.names = []
  · exact .inr (hpre.eq_of_length (by simp_all))
  · rw [← List.dropLast_concat_getLast hnil, List.prefix_concat_iff,
      List.dropLast_concat_getLast hnil] at hpre
    exact hpre.symm

theorem not_prefix_parent (hne : p.names ≠ []) : ¬ p.names <+: p.parent.names := by
  intro hpre
  have hle := hpre.length_le
  have hpos := List.length_pos_iff.2 hne
  rw [Path.parent, List.length_dropLast] at hle
  omega

/-- Once the directories above a path are there in both, the way along the path is the same. -/
theorem Alike.way_eq (h : Alike outputs lean full) (hp : p.Plain) (hclear : Clear outputs p)
    (hok : (lean.makeDirectories limit p.parent).1 = .ok ()) {way : Location}
    (hpre : way <+: p.names) :
    (full.makeDirectories limit p.parent).2.entryAt way =
      (lean.makeDirectories limit p.parent).2.entryAt way := by
  have hshallow : ¬ lean.TooDeep limit p.parent := by
    intro hdeep
    simp [makeDirectories_of_tooDeep hdeep] at hok
  cases hlooked : checkPath p.parent with
  | error fault =>
    obtain ⟨other, hother⟩ := makeDirectories_of_unlooked lean limit hlooked
    simp [hother] at hok
  | ok u =>
    obtain ⟨hlean, hoklean⟩ :=
      laid_makeDirectories h.leanLinkFree h.leanTree hp.parent hlooked hshallow
    obtain ⟨hfull, -⟩ :=
      laid_makeDirectories h.fullLinkFree h.fullTree hp.parent hlooked (h.not_tooDeep hshallow)
    have hopen := hoklean.1 hok
    have hopen' := (h.grown.open_iff (hclear.aside.of_prefix (List.dropLast_prefix _))).2 hopen
    rcases prefix_parent_or_eq hpre with habove | rfl
    · rw [hlean.laid habove (hopen.of_prefix habove), hfull.laid habove (hopen'.of_prefix habove)]
    · by_cases hnil : p.names = []
      · rw [hnil, entryAt_nil, entryAt_nil]
      · have hnot := not_prefix_parent hnil
        rw [hlean.others fun hboth => hnot hboth.1, hfull.others fun hboth => hnot hboth.1,
          hclear.entryAt_eq h.grown]

/-- Where a name that is too long stands behind a directory of the one, the other can add no
directories that the one does not have. -/
theorem Alike.makeDirectories_of_endsTooLong (h : Alike outputs lean full) (hp : p.Plain)
    (hlooked : checkPath p = .ok ()) (hends : full.EndsTooLong p.names)
    (hshallow : ¬ lean.TooDeep limit p.parent) :
    Alike outputs (lean.makeDirectories limit p.parent).2 full := by
  obtain ⟨way, name, hpre, hdir, hsize⟩ := hends
  have hmade := made_makeDirectories lean limit p.parent
  obtain ⟨hlaid, -⟩ :=
    laid_makeDirectories h.leanLinkFree h.leanTree hp.parent (checkPath_parent hlooked) hshallow
  have hsetting : SameSetting (lean.makeDirectories limit p.parent).2 full :=
    hmade.keeps.sameSetting.symm.trans h.grown.keeps.sameSetting
  generalize (lean.makeDirectories limit p.parent).2 = lean' at hlaid hsetting hmade
  have hcases : ∀ {loc},
      (lean'.entryAt loc = some .directory ∧ full.entryAt loc = some .directory) ∨
        lean'.entryAt loc = lean.entryAt loc := by
    intro loc
    by_cases hboth : loc <+: p.parent.names ∧ lean.Open loc
    · obtain ⟨habove, hopen⟩ := hboth
      refine .inl ⟨hlaid.laid habove hopen, h.fullTree.directory_prefix hdir ?_⟩
      rcases List.prefix_or_prefix_of_prefix (habove.trans (List.dropLast_prefix _)) hpre with
        hle | hle
      · rcases List.prefix_concat_iff.1 hle with rfl | hle
        · exact absurd (List.prefix_refl _) (not_prefix_of_tooLong hsize hopen.fits)
        · exact hle
      · exact absurd hle (not_prefix_of_tooLong hsize hopen.fits)
    · exact .inr (hlaid.others hboth)
  refine ⟨⟨⟨fun {loc e} he => ?_, hsetting.1, hsetting.2⟩, fun {loc} hloc => ?_⟩,
    hmade.isTree h.leanTree,
    h.fullTree, (hmade.grown h.leanLinkFree hp.parent (List.prefix_refl _)).1, h.fullLinkFree⟩
  · rcases @hcases loc with ⟨hlean, hfull⟩ | hsame
    · exact ⟨e, by rw [hfull, ← hlean, he], .refl e⟩
    · exact h.grown.keeps.entry (hsame ▸ he)
  · rcases @hcases loc with ⟨hlean, hfull⟩ | hsame
    · exact .inl (by rw [hfull, hlean])
    · rw [hsame]
      exact h.grown.others hloc

theorem EndsTooLong.not_fits (h : fs.EndsTooLong names) : ¬ Fits names := by
  obtain ⟨way, name, hpre, -, hsize⟩ := h
  exact fun hfits => not_prefix_of_tooLong hsize hfits hpre

theorem LinkFree.fits_of_write {after : FileSystem} (hl : fs.LinkFree) (hp : p.Plain)
    (h : fs.write p bytes = .ok after) : Fits p.names := by
  obtain ⟨place, hwritten⟩ := written_of_write h
  have hdescend := hl.descend_of_followToWrite (arriveToWrite_ok hwritten.arrived).2
  exact (descend_plain hp.entryNames hdescend).2

end ResourceAccessors.FileSystem
