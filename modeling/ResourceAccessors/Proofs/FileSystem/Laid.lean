import ResourceAccessors.Proofs.FileSystem.Faults
import ResourceAccessors.Proofs.FileSystem.Plain

/-! Adding directories where there are no links. A walk along plain names is stopped by a file on
its way or by a name that is too long, and by nothing else: what is missing can be added. Adding the
directories of a path therefore makes a directory of every location on its way that the walk is not
stopped before, and it fails exactly if the walk is stopped. -/
namespace ResourceAccessors.FileSystem
set_option autoImplicit false

variable {fs mid after : FileSystem} {p : Path} {dir loc : Location} {name : String}
  {names : List String} {fault : FileFault}

def Fits (names : List String) : Prop :=
  ∀ n ∈ names, n.utf8ByteSize ≤ maxNameBytes

/-! ## Walks along plain names -/

/-- What a walk along names from a directory meets. -/
inductive Met (fs : FileSystem) (dir : Location) (names : List String) : Descent → Prop
  | found (e : Entry) : Fits names → fs.entryAt (dir ++ names) = some e →
      Met fs dir names (.at (.found (dir ++ names)))
  | vacant (way : List String) (name : String) : names = way ++ [name] → Fits names →
      fs.entryAt (dir ++ way) = some .directory → fs.entryAt (dir ++ names) = none →
      Met fs dir names (.at (.vacant (dir ++ way) name))
  | missing (way : List String) : way <+: names → way ≠ names → Fits way →
      fs.entryAt (dir ++ way) = none → Met fs dir names (.blocked .notFound)
  | file (way : List String) (bytes : List UInt8) : way <+: names → way ≠ names → Fits way →
      fs.entryAt (dir ++ way) = some (.file bytes) → Met fs dir names (.blocked .notDirectory)
  | tooLong (way : List String) (name : String) : way ++ [name] <+: names →
      fs.entryAt (dir ++ way) = some .directory → maxNameBytes < name.utf8ByteSize →
      Met fs dir names (.blocked .nameTooLong)

theorem Fits.cons (hname : name.utf8ByteSize ≤ maxNameBytes) (h : Fits names) :
    Fits (name :: names) :=
  List.forall_mem_cons.2 ⟨hname, h⟩

theorem Met.cons {d : Descent} (hname : name.utf8ByteSize ≤ maxNameBytes)
    (h : Met fs (dir ++ [name]) names d) : Met fs dir (name :: names) d := by
  have hway : ∀ way, dir ++ [name] ++ way = dir ++ name :: way := by simp
  cases h with
  | found e hfits he =>
    rw [hway] at he ⊢
    exact .found e (hfits.cons hname) he
  | vacant way last hnames hfits hdir hfree =>
    rw [hway] at hdir hfree ⊢
    exact .vacant (name :: way) last (by rw [hnames, List.cons_append]) (hfits.cons hname) hdir hfree
  | missing way hpre hne hfits hfree =>
    rw [hway] at hfree
    exact .missing (name :: way) (List.cons_prefix_cons.2 ⟨rfl, hpre⟩) (by simpa using hne)
      (hfits.cons hname) hfree
  | file way bytes hpre hne hfits hfile =>
    rw [hway] at hfile
    exact .file (name :: way) bytes (List.cons_prefix_cons.2 ⟨rfl, hpre⟩) (by simpa using hne)
      (hfits.cons hname) hfile
  | tooLong way last hpre hdir hsize =>
    rw [hway] at hdir
    exact .tooLong (name :: way) last (List.cons_prefix_cons.2 ⟨rfl, hpre⟩) hdir hsize

theorem LinkFree.met (hl : fs.LinkFree) (hnames : ∀ n ∈ names, Path.isEntryName n = true)
    (hd : fs.entryAt dir = some .directory) : Met fs dir names (fs.descend dir names) := by
  fun_induction descend fs dir names with
  | case1 dir =>
    have h : Met fs dir [] (.at (.found (dir ++ []))) :=
      .found .directory (by simp [Fits]) (by simpa using hd)
    simpa using h
  | case2 dir rest ih => exact absurd rfl (Path.ne_dot_of_isEntryName (hnames _ (by simp))).1
  | case3 dir rest _ ih => exact absurd rfl (Path.ne_dot_of_isEntryName (hnames _ (by simp))).2
  | case4 dir name rest _ _ hsize =>
    exact .tooLong [] name (by simp) (by simpa using hd) hsize
  | case5 dir name rest _ _ hsize hnone hrest =>
    rw [List.isEmpty_iff.1 hrest]
    have hfits : Fits [name] := by simpa [Fits] using Nat.le_of_not_lt hsize
    have h : Met fs dir [name] (.at (.vacant (dir ++ []) name)) :=
      .vacant [] name rfl hfits (by simpa using hd) hnone
    simpa using h
  | case6 dir name rest _ _ hsize hnone hrest =>
    have hfits : Fits [name] := by simpa [Fits] using Nat.le_of_not_lt hsize
    have hne : rest ≠ [] := fun h => hrest (List.isEmpty_iff.2 h)
    exact .missing [name] (by simp) (by simpa using hne.symm) hfits hnone
  | case7 dir name rest _ _ hsize hdir ih =>
    exact (ih (fun n hn => hnames n (List.mem_cons_of_mem _ hn)) hdir).cons (Nat.le_of_not_lt hsize)
  | case8 dir name rest _ _ hsize content hfile hrest =>
    rw [List.isEmpty_iff.1 hrest]
    exact .found (.file content) (by simpa [Fits] using Nat.le_of_not_lt hsize) hfile
  | case9 dir name rest _ _ hsize content hfile hrest =>
    have hfits : Fits [name] := by simpa [Fits] using Nat.le_of_not_lt hsize
    have hne : rest ≠ [] := fun h => hrest (List.isEmpty_iff.2 h)
    exact .file [name] content (by simp) (by simpa using hne.symm) hfits hfile
  | case10 dir name rest _ _ _ target hlink => exact absurd hlink (hl _ _)

/-! ## Where a walk is stopped -/

/-- Nothing stops a walk to a location. -/
structure Open (fs : FileSystem) (loc : Location) : Prop where
  fits : Fits loc
  noFile : ∀ {way bytes}, way <+: loc → fs.entryAt way ≠ some (.file bytes)

/-- A file, or a name that is too long in a directory that is there, stops a walk. -/
inductive Stopped (fs : FileSystem) (names : List String) : Prop
  | file (way : Location) (bytes : List UInt8) : way <+: names →
      fs.entryAt way = some (.file bytes) → Stopped fs names
  | tooLong (way : Location) (name : String) : way ++ [name] <+: names →
      fs.entryAt way = some .directory → maxNameBytes < name.utf8ByteSize → Stopped fs names

theorem Open.of_prefix {way : Location} (h : fs.Open loc) (hpre : way <+: loc) : fs.Open way :=
  ⟨fun n hn => h.fits n (hpre.subset hn), fun hway => h.noFile (hway.trans hpre)⟩

theorem IsTree.directory_prefix (htree : fs.IsTree) {way : Location}
    (hd : fs.entryAt loc = some .directory) (hpre : way <+: loc) :
    fs.entryAt way = some .directory := by
  by_cases hne : way = loc
  · exact hne ▸ hd
  · exact htree.directory_of_prefix hd hpre hne

theorem IsTree.open_of_directory (htree : fs.IsTree) (hd : fs.entryAt loc = some .directory)
    (hfits : Fits loc) : fs.Open loc := by
  refine ⟨hfits, fun hpre hfile => ?_⟩
  rw [htree.directory_prefix hd hpre] at hfile
  simp at hfile

theorem Stopped.not_open (h : fs.Stopped names) : ¬ fs.Open names := by
  intro hopen
  cases h with
  | file way bytes hpre hfile => exact hopen.noFile hpre hfile
  | tooLong way name hpre _ hsize =>
    have hfits := hopen.fits name (hpre.subset (by simp))
    omega

theorem not_prefix_of_tooLong {way : Location} (hsize : maxNameBytes < name.utf8ByteSize)
    (hfits : Fits loc) : ¬ way ++ [name] <+: loc := by
  intro hpre
  have hname := hfits name (hpre.subset (by simp))
  omega

/-- Up to where a walk is stopped there are directories. -/
theorem Stopped.directory (h : fs.Stopped names) (htree : fs.IsTree) (hpre : loc <+: names)
    (hopen : fs.Open loc) : fs.entryAt loc = some .directory := by
  cases h with
  | file way bytes hway hfile =>
    rcases List.prefix_or_prefix_of_prefix hpre hway with hle | hle
    · refine htree.directory_of_prefix hfile hle ?_
      rintro rfl
      exact hopen.noFile (List.prefix_refl _) hfile
    · exact absurd hfile (hopen.noFile hle)
  | tooLong way name hway hdir hsize =>
    rcases List.prefix_or_prefix_of_prefix hpre hway with hle | hle
    · rcases List.prefix_concat_iff.1 hle with rfl | hle
      · exact absurd (List.prefix_refl _) (not_prefix_of_tooLong hsize hopen.fits)
      · exact htree.directory_prefix hdir hle
    · exact absurd hle (not_prefix_of_tooLong hsize hopen.fits)

/-- A walk to an entry that is there, along names that fit, comes to it. -/
theorem Met.eq_found {d : Descent} {e : Entry} (h : Met fs [] loc d) (htree : fs.IsTree)
    (hfits : Fits loc) (he : fs.entryAt loc = some e) : d = .at (.found loc) := by
  have habove : ∀ {way : Location}, way <+: loc → way ≠ loc →
      fs.entryAt ([] ++ way) = some .directory :=
    fun hpre hne => htree.directory_of_prefix he hpre hne
  cases h with
  | found => rfl
  | vacant way name _ _ _ hfree =>
    rw [List.nil_append, he] at hfree
    simp at hfree
  | missing way hpre hne _ hfree =>
    rw [habove hpre hne] at hfree
    simp at hfree
  | file way bytes hpre hne _ hfile =>
    rw [habove hpre hne] at hfile
    simp at hfile
  | tooLong way name hpre _ hsize => exact absurd hpre (not_prefix_of_tooLong hsize hfits)

/-! ## One directory -/

theorem leadsTo_eq_error {test : Entry → Bool} (h : fs.leadsTo test p = .error fault) :
    ∀ q, fault ≠ .obstructed .notFound q := by
  rintro q rfl
  unfold leadsTo at h
  split at h
  · simp at h
  · simp at h
  · next o _ _ =>
    split at h
    · simp at h
    · next hnot =>
      rw [Except.error.injEq, FileFault.obstructed.injEq] at h
      exact hnot (h.1 ▸ rfl)
  · simp at h

theorem LinkFree.isDirectory_iff (hl : fs.LinkFree) (htree : fs.IsTree) (hp : p.Plain)
    (hlooked : checkPath p = .ok ()) :
    fs.isDirectory p = .ok true ↔ Fits p.names ∧ fs.entryAt p.names = some .directory := by
  rw [isDirectory_eq_true_iff]
  constructor
  · rintro ⟨dir, hlocate, hdir⟩
    obtain ⟨rfl, hfits⟩ := hl.locate_plain hp hlocate
    exact ⟨hfits, hdir⟩
  · rintro ⟨hfits, hdir⟩
    refine ⟨p.names, locate_eq_ok_iff.2 ⟨hlooked, false, ?_, by simp⟩, hdir⟩
    rw [start, if_pos hp.absolute]
    exact follow_of_descend ((hl.met hp.entryNames (entryAt_nil fs)).eq_found htree hfits hdir)

/-- What adding one directory comes to: it is there in the end, a directory above it is missing, or
the way to it is stopped. -/
inductive Ensured (fs : FileSystem) (p : Path) : Except FileFault FileSystem → Prop
  | there (after : FileSystem) : fs.Open p.names →
      (∀ way, way <+: p.names → way ≠ p.names → fs.entryAt way = some .directory) →
      after.entryAt p.names = some .directory →
      (∀ loc, loc ≠ p.names → after.entryAt loc = fs.entryAt loc) → Ensured fs p (.ok after)
  | missing (way : Location) : way <+: p.names → way ≠ p.names → fs.entryAt way = none →
      Ensured fs p (.error (.obstructed .notFound p))
  | stopped (fault : FileFault) : (∀ q, fault ≠ .obstructed .notFound q) → fs.Stopped p.names →
      Ensured fs p (.error fault)

theorem ensured_of_stopped {o : Obstacle} (hl : fs.LinkFree) (htree : fs.IsTree) (hp : p.Plain)
    (hlooked : checkPath p = .ok ()) (hm : fs.makeDirectory p = .error (.obstructed o p))
    (ho : o ≠ .notFound) (hstopped : fs.Stopped p.names) :
    Ensured fs p (fs.ensureDirectory p) := by
  have hnot : fs.isDirectory p ≠ .ok true := by
    intro hdir
    obtain ⟨hfits, hthere⟩ := (hl.isDirectory_iff htree hp hlooked).1 hdir
    exact hstopped.not_open (htree.open_of_directory hthere hfits)
  unfold ensureDirectory
  rw [hm]
  cases hd : fs.isDirectory p with
  | ok isDir =>
    cases isDir with
    | true => exact absurd hd hnot
    | false =>
      cases o <;> first
        | exact absurd rfl ho
        | exact .stopped _ (by simp) hstopped
  | error other =>
    cases o <;> first
      | exact absurd rfl ho
      | exact .stopped _ (leadsTo_eq_error hd) hstopped

theorem ensured_of_missing {way : Location}
    (hm : fs.makeDirectory p = .error (.obstructed .notFound p))
    (habove : way <+: p.names ∧ way ≠ p.names) (hfree : fs.entryAt way = none) :
    Ensured fs p (fs.ensureDirectory p) := by
  unfold ensureDirectory
  rw [hm]
  exact .missing way habove.1 habove.2 hfree

theorem makeDirectory_of_holder_error {o : Obstacle} (hlooked : checkPath p = .ok ())
    (h : fs.holder p = .error o) : fs.makeDirectory p = .error (.obstructed o p) := by
  simp only [makeDirectory, hlooked, h]

theorem makeDirectory_of_holder (hlooked : checkPath p = .ok ()) (h : fs.holder p = .ok dir)
    (hlast : p.names.getLast? = some name) (hname : name ≠ "..") :
    fs.makeDirectory p =
      if maxNameBytes < name.utf8ByteSize then .error (.obstructed .nameTooLong p)
      else
        match fs.entryAt (dir ++ [name]) with
        | some _ => .error (.obstructed .taken p)
        | none => .ok (fs.set (dir ++ [name]) .directory) := by
  unfold makeDirectory
  rw [hlooked, h, hlast]
  -- the name is not the one that would climb, so only the last case is left
  cases he : fs.entryAt (dir ++ [name]) with
  | none => simp only [he]
  | some e => simp only [he]

/-- Where the directory above is there, the last name decides. -/
theorem ensured_of_holder (hl : fs.LinkFree) (htree : fs.IsTree) (hp : p.Plain)
    (hlooked : checkPath p = .ok ()) (hnames : p.names = dir ++ [name])
    (hholder : fs.holder p = .ok dir) (hdir : fs.entryAt dir = some .directory) (hfits : Fits dir) :
    Ensured fs p (fs.ensureDirectory p) := by
  have hlast : p.names.getLast? = some name := by rw [hnames, List.getLast?_concat]
  have hname := (Path.ne_dot_of_isEntryName (hp.entryNames name (List.mem_of_getLast? hlast))).2
  have hmake := makeDirectory_of_holder hlooked hholder hlast hname
  rw [← hnames] at hmake
  have habove : ∀ way, way <+: p.names → way ≠ p.names → fs.entryAt way = some .directory := by
    intro way hpre hne
    rw [hnames, List.prefix_concat_iff, ← hnames] at hpre
    exact htree.directory_prefix hdir (hpre.resolve_left hne)
  by_cases hsize : maxNameBytes < name.utf8ByteSize
  · rw [if_pos hsize] at hmake
    exact ensured_of_stopped hl htree hp hlooked hmake (by simp)
      (.tooLong dir name (hnames ▸ List.prefix_refl _) hdir hsize)
  · rw [if_neg hsize] at hmake
    have hall : Fits p.names := by
      intro n hn
      rw [hnames, List.mem_append, List.mem_singleton] at hn
      rcases hn with hn | rfl
      · exact hfits n hn
      · exact Nat.le_of_not_lt hsize
    cases he : fs.entryAt p.names with
    | none =>
      rw [he] at hmake
      have hopen : fs.Open p.names := by
        refine ⟨hall, fun {way bytes} hpre hfile => ?_⟩
        by_cases hne : way = p.names
        · simp [hne, he] at hfile
        · simp [habove way hpre hne] at hfile
      have hset := fun loc => entryAt_set fs p.names loc .directory (by simp [hnames])
      have hensure : fs.ensureDirectory p = .ok (fs.set p.names .directory) := by
        unfold ensureDirectory
        rw [hmake]
      rw [hensure]
      exact .there _ hopen habove (by rw [hset, if_pos rfl]) fun loc hne => by rw [hset, if_neg hne]
    | some e =>
      rw [he] at hmake
      cases e with
      | link target => exact absurd he (hl _ _)
      | file bytes =>
        exact ensured_of_stopped hl htree hp hlooked hmake (by simp)
          (.file p.names bytes (List.prefix_refl _) he)
      | directory =>
        have hensure : fs.ensureDirectory p = .ok fs := by
          unfold ensureDirectory
          rw [hmake, (hl.isDirectory_iff htree hp hlooked).2 ⟨hall, he⟩]
        rw [hensure]
        exact .there _ (htree.open_of_directory he hall) habove he fun _ _ => rfl

theorem ensured (hl : fs.LinkFree) (htree : fs.IsTree) (hp : p.Plain)
    (hlooked : checkPath p = .ok ()) (hne : p.names ≠ []) :
    Ensured fs p (fs.ensureDirectory p) := by
  have hnames := (List.dropLast_concat_getLast hne).symm
  generalize p.names.dropLast = dir at hnames
  generalize p.names.getLast hne = name at hnames
  have hdrop : p.names.dropLast = dir := by rw [hnames, List.dropLast_concat]
  have hway : dir <+: p.names := by rw [hnames]; exact List.prefix_append _ _
  have hshort : ∀ {way : Location}, way <+: dir → way <+: p.names ∧ way ≠ p.names := by
    intro way hpre
    refine ⟨hpre.trans hway, ?_⟩
    rintro rfl
    have hlength := hpre.length_le
    rw [hnames, List.length_append, List.length_singleton] at hlength
    omega
  have hstart : fs.start p = [] := by rw [start, if_pos hp.absolute]
  have hm := hl.met (fun n hn => hp.entryNames n (hway.subset hn)) (entryAt_nil fs)
  have hholder : fs.holder p = followToDirectory fs maxLinks [] dir := by
    rw [holder, hstart, hdrop]
  generalize hd : fs.descend [] dir = d at hm
  unfold followToDirectory at hholder
  have hblocked : ∀ {o : Obstacle}, d = .blocked o →
      fs.follow maxLinks false [] dir = .error o := by
    rintro o rfl
    unfold follow
    rw [hd]
  cases hm with
  | found e hfits he =>
    rw [follow_of_descend hd] at hholder
    simp only at hholder
    cases e with
    | link target => exact absurd he (hl _ _)
    | file bytes =>
      rw [he] at hholder
      exact ensured_of_stopped hl htree hp hlooked (makeDirectory_of_holder_error hlooked hholder)
        (by simp) (.file dir bytes hway he)
    | directory =>
      rw [if_pos he] at hholder
      exact ensured_of_holder hl htree hp hlooked hnames hholder he hfits
  | vacant way last hway' hfits hdir hfree =>
    rw [follow_of_descend hd] at hholder
    exact ensured_of_missing (makeDirectory_of_holder_error hlooked hholder)
      (hshort (List.prefix_refl _)) hfree
  | missing way hpre hne' hfits hfree =>
    rw [hblocked rfl] at hholder
    exact ensured_of_missing (makeDirectory_of_holder_error hlooked hholder) (hshort hpre) hfree
  | file way bytes hpre hne' hfits hfile =>
    rw [hblocked rfl] at hholder
    exact ensured_of_stopped hl htree hp hlooked (makeDirectory_of_holder_error hlooked hholder)
      (by simp) (.file way bytes (hshort hpre).1 hfile)
  | tooLong way last hpre hdir hsize =>
    rw [hblocked rfl] at hholder
    exact ensured_of_stopped hl htree hp hlooked (makeDirectory_of_holder_error hlooked hholder)
      (by simp) (.tooLong way last (hpre.trans hway) hdir hsize)

/-! ## All of them -/

/-- On the way along some names a directory is at every location that the walk is not stopped
before; every other entry is as it was. -/
structure Laid (fs : FileSystem) (names : List String) (after : FileSystem) : Prop where
  laid : ∀ {loc}, loc <+: names → fs.Open loc → after.entryAt loc = some .directory
  others : ∀ {loc}, ¬ (loc <+: names ∧ fs.Open loc) → after.entryAt loc = fs.entryAt loc

theorem Laid.of_stopped (h : fs.Stopped names) (htree : fs.IsTree) : Laid fs names fs :=
  ⟨fun hpre hopen => h.directory htree hpre hopen, fun _ => rfl⟩

/-- A walk that is not stopped after directories were added was not stopped before. -/
theorem Laid.open_iff {more : List String} (h : Laid fs names mid) (hopen : fs.Open names) :
    mid.Open more ↔ fs.Open more := by
  have hsame : ∀ {way bytes}, way <+: more →
      (mid.entryAt way = some (.file bytes) ↔ fs.entryAt way = some (.file bytes)) := by
    intro way bytes hway
    by_cases hle : way <+: names
    · rw [h.laid hle (hopen.of_prefix hle)]
      simp [hopen.noFile hle]
    · rw [h.others fun hboth => hle hboth.1]
  constructor
  · intro hm
    exact ⟨hm.fits, fun hway hfile => hm.noFile hway ((hsame hway).2 hfile)⟩
  · intro hf
    exact ⟨hf.fits, fun hway hfile => hf.noFile hway ((hsame hway).1 hfile)⟩

/-- A walk that is stopped before its last location has no directory to be laid there. -/
theorem Laid.longer {more : List String} (h : Laid fs names mid) (hpre : names <+: more)
    (hlast : ∀ {way}, way <+: more → way <+: names ∨ way = more) (hnot : ¬ fs.Open more) :
    Laid fs more mid := by
  refine ⟨fun {loc} hloc hopen => ?_,
    fun hno => h.others fun hboth => hno ⟨hboth.1.trans hpre, hboth.2⟩⟩
  rcases hlast hloc with hle | rfl
  · exact h.laid hle hopen
  · exact absurd hopen hnot

/-- One directory more, behind those that were laid, is laid or stopped. -/
theorem Laid.ensured {r : Except FileFault FileSystem} (h : Laid fs names mid)
    (hopen : fs.Open names) (hpre : names <+: p.names)
    (hlast : ∀ {way}, way <+: p.names → way <+: names ∨ way = p.names) (he : Ensured mid p r) :
    (∃ after, r = .ok after ∧ Laid fs p.names after ∧ fs.Open p.names) ∨
      ∃ fault, r = .error fault ∧ Laid fs p.names mid ∧ ¬ fs.Open p.names := by
  have hsame : mid.Open p.names ↔ fs.Open p.names := h.open_iff hopen
  cases he with
  | there after hopen' _ hdir hothers =>
    refine .inl ⟨after, rfl, ⟨fun {loc} hloc hopenloc => ?_, fun {loc} hnot => ?_⟩, hsame.1 hopen'⟩
    · by_cases hend : loc = p.names
      · rw [hend]
        exact hdir
      · rw [hothers loc hend]
        exact h.laid ((hlast hloc).resolve_right hend) hopenloc
    · have hend : loc ≠ p.names := by
        rintro rfl
        exact hnot ⟨List.prefix_refl _, hsame.1 hopen'⟩
      rw [hothers loc hend]
      exact h.others fun hboth => hnot ⟨hboth.1.trans hpre, hboth.2⟩
  | missing way hway hne hfree =>
    have hle := (hlast hway).resolve_right hne
    rw [h.laid hle (hopen.of_prefix hle)] at hfree
    simp at hfree
  | stopped fault _ hstopped =>
    have hnot : ¬ fs.Open p.names := fun hfs => hstopped.not_open (hsame.2 hfs)
    exact .inr ⟨fault, rfl, h.longer hpre hlast hnot, hnot⟩

theorem checkPath_take {n : Nat} (h : checkPath p = .ok ()) (hne : p.names.take n ≠ []) :
    checkPath (p.take n) = .ok () := by
  obtain ⟨hnul, hsize⟩ := checkPath_eq_ok_iff.1 h
  have hle := Path.size_below_le (p := ⟨p.anchor, []⟩) hne (List.take_prefix n p.names)
  exact checkPath_eq_ok_iff.2 ⟨fun hholds => hnul hholds.of_take, Nat.le_trans hle hsize⟩

theorem laid_nil (fs : FileSystem) : Laid fs [] fs := by
  refine ⟨fun hpre _ => ?_, fun _ => rfl⟩
  rw [List.prefix_nil.1 hpre, entryAt_nil]

theorem open_nil (fs : FileSystem) : fs.Open [] := by
  refine ⟨by simp [Fits], fun hpre hfile => ?_⟩
  rw [List.prefix_nil.1 hpre, entryAt_nil] at hfile
  simp at hfile

theorem prefix_take_succ {way : List String} {n : Nat} (h : way <+: names.take (n + 1)) :
    way <+: names.take n ∨ way = names.take (n + 1) := by
  by_cases hlength : way.length ≤ n
  · exact .inl (List.prefix_take_iff.2 ⟨(List.prefix_take_iff.1 h).1, hlength⟩)
  · refine .inr (h.eq_of_length ?_)
    have hle := h.length_le
    rw [List.length_take] at hle ⊢
    omega

theorem makeDirectoriesTo_of_fault {n : Nat}
    (h : fs.ensureDirectory (p.take (n + 1)) = .error fault)
    (hnot : ∀ q, fault ≠ .obstructed .notFound q) :
    fs.makeDirectoriesTo p (n + 1) = (.error fault, fs) := by
  unfold makeDirectoriesTo
  rw [h]
  cases fault with
  | nulInPath | tooNested => rfl
  | obstructed o q =>
    cases o <;> first | rfl | exact absurd rfl (hnot q)

theorem laid_makeDirectoriesTo (hl : fs.LinkFree) (htree : fs.IsTree) (hp : p.Plain)
    (hlooked : checkPath p = .ok ()) {n : Nat} (hn : n ≤ p.names.length) :
    Laid fs (p.names.take n) (fs.makeDirectoriesTo p n).2 ∧
      ((fs.makeDirectoriesTo p n).1 = .ok () ↔ fs.Open (p.names.take n)) := by
  induction n with
  | zero =>
    rw [List.take_zero]
    exact ⟨laid_nil fs, iff_of_true rfl (open_nil fs)⟩
  | succ n ih =>
    obtain ⟨hlaid, hok⟩ := ih (Nat.le_of_succ_le hn)
    have hlength : (p.names.take (n + 1)).length = n + 1 := List.length_take_of_le hn
    have hne : p.names.take (n + 1) ≠ [] := by
      intro hnil
      simp [hnil] at hlength
    have hplain := hp.take (n + 1)
    have hlooked' := checkPath_take hlooked hne
    have he := ensured hl htree hplain hlooked' hne
    generalize hr : fs.ensureDirectory (p.take (n + 1)) = r at he
    cases he with
    | there after hopen habove hdir hothers =>
      unfold makeDirectoriesTo
      rw [hr]
      refine ⟨⟨fun {loc} hpre _ => ?_, fun {loc} hnot => ?_⟩, iff_of_true rfl hopen⟩
      · by_cases hsame : loc = p.names.take (n + 1)
        · rw [hsame]
          exact hdir
        · rw [hothers loc hsame]
          exact habove loc hpre hsame
      · refine hothers loc ?_
        rintro rfl
        exact hnot ⟨List.prefix_refl _, hopen⟩
    | stopped fault hnot hstopped =>
      rw [makeDirectoriesTo_of_fault hr hnot]
      exact ⟨.of_stopped hstopped htree, iff_of_false (by simp) hstopped.not_open⟩
    | missing =>
      unfold makeDirectoriesTo
      rw [hr]
      simp only
      cases hmake : fs.makeDirectoriesTo p n with
      | mk result mid =>
        rw [hmake] at hlaid hok
        simp only at hlaid hok
        have hshorter := List.take_prefix_take_left (l := p.names) (Nat.le_succ n)
        cases result with
        | error fault =>
          have hnot : ¬ fs.Open (p.names.take (n + 1)) := fun hopen => by
            simpa using hok.2 (hopen.of_prefix hshorter)
          exact ⟨hlaid.longer hshorter prefix_take_succ hnot, iff_of_false (by simp) hnot⟩
        | ok u =>
          have hmade := made_makeDirectoriesTo fs p n
          rw [hmake] at hmade
          have hagain := ensured (hmade.grown hl hp (List.prefix_refl _)).1 (hmade.isTree htree)
            hplain hlooked' hne
          simp only
          rcases hlaid.ensured (hok.1 rfl) hshorter prefix_take_succ hagain with
            ⟨after, hthere, hlast, hopen⟩ | ⟨fault, hfault, hlast, hnot⟩
          · rw [hthere]
            exact ⟨hlast, iff_of_true rfl hopen⟩
          · rw [hfault]
            exact ⟨hlast, iff_of_false (by simp) hnot⟩

/-- Adding the directories of a path lays them, unless too many are missing, and it fails if the
walk is stopped. -/
theorem laid_makeDirectories {limit : CallLimit} (hl : fs.LinkFree) (htree : fs.IsTree)
    (hp : p.Plain) (hlooked : checkPath p = .ok ()) (hdeep : ¬ fs.TooDeep limit p) :
    Laid fs p.names (fs.makeDirectories limit p).2 ∧
      ((fs.makeDirectories limit p).1 = .ok () ↔ fs.Open p.names) := by
  have h := laid_makeDirectoriesTo hl htree hp hlooked (Nat.le_refl _)
  rw [List.take_length] at h
  rwa [makeDirectories_of_not_tooDeep hdeep]

end ResourceAccessors.FileSystem
