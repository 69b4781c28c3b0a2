import ResourceAccessors.Proofs.FileSystem.Alike

/-! One file more, aside of what is done. A file is put where nothing was. A path without dots that
it is not on the way of is looked up as before, and adding directories and writing files along such
a path does the same with the file there as without it, and leaves it there. Only whether some path
leads to a directory can be asked of any path at all. -/
namespace ResourceAccessors.FileSystem
set_option autoImplicit false

variable {fs after : FileSystem} {p : Path} {q dir loc : Location} {bytes content : List UInt8}
  {names : List String}

/-! ## Entries -/

theorem set_comm {a b : Location} (e f : Entry) (h : a ≠ b) :
    (fs.set a e).set b f = (fs.set b f).set a e := by
  unfold set
  congr 1
  apply Std.ExtTreeMap.ext_getElem?
  intro l
  rw [Std.ExtTreeMap.getElem?_insert, Std.ExtTreeMap.getElem?_insert,
    Std.ExtTreeMap.getElem?_insert, Std.ExtTreeMap.getElem?_insert]
  by_cases hb : b = l
  · have ha : a ≠ l := fun hal => h (hal.trans hb.symm)
    simp [hb, ha]
  · simp [hb]

/-- An entry off the way along some names leaves the way as it is. -/
theorem entryAt_set_of_prefix {e : Entry} {way : Location} (haside : ¬ q <+: names)
    (hway : way <+: names) : (fs.set q e).entryAt way = fs.entryAt way := by
  have hq : q ≠ [] := by
    rintro rfl
    exact haside (List.nil_prefix)
  have hne : way ≠ q := by
    rintro rfl
    exact haside hway
  rw [entryAt_set _ _ _ _ hq, if_neg hne]

theorem grown_set {e : Entry} (hfree : fs.entryAt q = none) : Grown [q] fs (fs.set q e) := by
  have hq := ne_nil_of_free hfree
  refine ⟨.set_free hfree, fun {l} hl => .inl ?_⟩
  rw [entryAt_set _ _ _ _ hq, if_neg fun h => hl (List.mem_singleton.2 h)]

/-- What is free stays free while nothing is written at it or below it. -/
theorem Grown.free {outputs : List Location} (h : Grown outputs fs after)
    (hfree : fs.entryAt q = none) (haside : ∀ out ∈ outputs, ¬ q <+: out) :
    after.entryAt q = none := by
  rcases h.others fun hmem => haside q hmem (List.prefix_refl _) with
    heq | ⟨-, -, out, hout, hpre⟩
  · rw [heq, hfree]
  · exact absurd hpre (haside out hout)

theorem IsTree.set_free {e : Entry} (htree : fs.IsTree) (hfree : fs.entryAt q = none)
    (hparent : fs.entryAt q.dropLast = some .directory) : (fs.set q e).IsTree := by
  have hq := ne_nil_of_free hfree
  have hlast := List.dropLast_concat_getLast hq
  rw [← hlast] at hfree ⊢
  exact htree.set_child hparent hfree

/-! ## Directories at a path -/

/-- With a file where there was nothing, a walk ends as before, or where it found nothing it now
finds the file or is stopped by it. -/
theorem descend_set (hq : q ≠ []) (hfree : fs.entryAt q = none) (dir : Location)
    (names : List String) :
    (fs.set q (.file bytes)).descend dir names = fs.descend dir names ∨
      ((∃ d name, fs.descend dir names = .at (.vacant d name)) ∧
        (fs.set q (.file bytes)).descend dir names = .at (.found q)) ∨
      (fs.descend dir names = .blocked .notFound ∧
        (fs.set q (.file bytes)).descend dir names = .blocked .notDirectory) := by
  induction names generalizing dir with
  | nil => exact .inl rfl
  | cons name rest ih =>
    rw [descend, descend]
    by_cases hdot : name = "."
    · rw [if_pos hdot, if_pos hdot]
      exact ih dir
    by_cases hdots : name = ".."
    · rw [if_neg hdot, if_neg hdot, if_pos hdots, if_pos hdots]
      exact ih dir.dropLast
    rw [if_neg hdot, if_neg hdot, if_neg hdots, if_neg hdots]
    by_cases hsize : maxNameBytes < name.utf8ByteSize
    · rw [if_pos hsize, if_pos hsize]
      exact .inl rfl
    rw [if_neg hsize, if_neg hsize, entryAt_set _ _ _ _ hq]
    by_cases hhere : dir ++ [name] = q
    · rw [if_pos hhere, hhere, hfree]
      cases rest with
      | nil => exact .inr (.inl ⟨⟨dir, name, rfl⟩, rfl⟩)
      | cons next more => exact .inr (.inr ⟨rfl, rfl⟩)
    · rw [if_neg hhere]
      cases he : fs.entryAt (dir ++ [name]) with
      | none => exact .inl rfl
      | some e =>
        cases e with
        | directory => exact ih (dir ++ [name])
        | file old => exact .inl rfl
        | link target => exact .inl rfl

/-- A file that is added makes no path lead to a directory that did not, nor the other way. -/
theorem isDirectory_set (hl : fs.LinkFree) (hfree : fs.entryAt q = none) (p : Path) :
    (fs.set q (.file bytes)).isDirectory p = fs.isDirectory p := by
  have hq := ne_nil_of_free hfree
  have hstart : (fs.set q (.file bytes)).start p = fs.start p := rfl
  have hthere : (fs.set q (.file bytes)).entryAt q = some (.file bytes) := by
    rw [entryAt_set _ _ _ _ hq, if_pos rfl]
  cases hlooked : checkPath p with
  | error fault =>
    simp only [isDirectory, leadsTo, locate, arrive, hlooked]
    cases fault <;> rfl
  | ok u =>
    rcases descend_set hq hfree (fs.start p) p.names with
      hsame | ⟨⟨d, name, hlean⟩, hfull⟩ | ⟨hlean, hfull⟩
    · have hfollow : (fs.set q (.file bytes)).follow maxLinks false (fs.start p) p.names =
          fs.follow maxLinks false (fs.start p) p.names := hl.follow_congr hsame
      simp only [isDirectory, leadsTo, locate, arrive, hlooked, hstart, hfollow]
      cases hf : fs.follow maxLinks false (fs.start p) p.names with
      | error obstacle => rfl
      | ok arrival =>
        obtain ⟨place, slashed⟩ := arrival
        obtain rfl : slashed = false := (hl.descend_of_follow hf).2
        cases place with
        | vacant d name => rfl
        | found loc =>
          simp only [Bool.false_and, Bool.false_eq_true, if_false]
          by_cases hloc : loc = q
          · rw [hloc, hthere, hfree]
            rfl
          · rw [entryAt_set _ _ _ _ hq, if_neg hloc]
    · simp only [isDirectory, leadsTo, locate, arrive, hlooked, hstart, follow_of_descend hlean,
        follow_of_descend hfull, Bool.false_and, Bool.false_eq_true, if_false, hthere]
      rfl
    · simp only [isDirectory, leadsTo, locate, arrive, hlooked, hstart, follow_of_blocked hlean,
        follow_of_blocked hfull]
      rfl

/-! ## Changes along a path -/

/-- The directory that holds the last name of a path without dots is that of the names before. -/
theorem LinkFree.holder_plain (hl : fs.LinkFree) (hp : p.Plain) (h : fs.holder p = .ok dir) :
    dir = p.names.dropLast := by
  unfold holder followToDirectory start at h
  rw [if_pos hp.absolute] at h
  split at h
  · simp at h
  · simp at h
  · next loc slashed hf =>
    have hloc : loc = p.names.dropLast :=
      (descend_plain hp.parent.entryNames (hl.descend_of_follow hf).1).1
    split at h
    · rw [Except.ok.injEq] at h
      rw [← h, hloc]
    · simp at h

/-- A change at the end of a path that an entry is off the way of can be made before it or after. -/
theorem set_set_of_aside {e : Entry} (haside : ¬ q <+: p.names) (f : Entry) :
    (fs.set q e).set p.names f = (fs.set p.names f).set q e := by
  refine set_comm e f ?_
  rintro rfl
  exact haside (List.prefix_refl _)

section

variable {e : Entry} (hl : fs.LinkFree) (hp : p.Plain) (haside : ¬ q <+: p.names)
include hl hp haside

theorem holder_set : (fs.set q e).holder p = fs.holder p := by
  have hdescend : (fs.set q e).descend [] p.names.dropLast = fs.descend [] p.names.dropLast :=
    descend_congr hp.parent.entryNames fun hpre _ =>
      entryAt_set_of_prefix haside (hpre.trans (List.dropLast_prefix _))
  unfold holder followToDirectory start
  rw [if_pos hp.absolute, if_pos hp.absolute, hl.follow_congr hdescend]
  cases hf : fs.follow maxLinks false [] p.names.dropLast with
  | error obstacle => rfl
  | ok arrival =>
    obtain ⟨place, slashed⟩ := arrival
    cases place with
    | vacant d name => rfl
    | found loc =>
      have hloc : loc = p.names.dropLast :=
        (descend_plain hp.parent.entryNames (hl.descend_of_follow hf).1).1
      simp only
      rw [hloc, entryAt_set_of_prefix haside (List.dropLast_prefix _)]

theorem makeDirectory_set :
    (fs.set q e).makeDirectory p = (fs.makeDirectory p).map (·.set q e) := by
  unfold makeDirectory
  rw [holder_set hl hp haside]
  cases checkPath p with
  | error fault => rfl
  | ok u =>
    cases hholder : fs.holder p with
    | error obstacle => rfl
    | ok dir =>
      have hdir := hl.holder_plain hp hholder
      simp only
      split
      · rfl
      · rfl
      · next name _ hlast =>
        obtain ⟨above, habove⟩ := List.getLast?_eq_some_iff.1 hlast
        have hnames : dir ++ [name] = p.names := by
          rw [hdir, habove, List.dropLast_concat]
        rw [hnames, entryAt_set_of_prefix haside (List.prefix_refl _)]
        split
        · rfl
        · cases fs.entryAt p.names with
          | some there => rfl
          | none => exact congrArg Except.ok (set_set_of_aside haside .directory)

theorem ensureDirectory_set :
    (fs.set q e).ensureDirectory p = (fs.ensureDirectory p).map (·.set q e) := by
  have hway : ∀ {way}, way <+: p.names → (fs.set q e).entryAt way = fs.entryAt way :=
    fun hpre => entryAt_set_of_prefix haside hpre
  have hisdir : (fs.set q e).isDirectory p = fs.isDirectory p := by
    unfold isDirectory leadsTo
    rw [locate_congr hl hp hway]
    cases hloc : fs.locate p with
    | error fault => cases fault <;> rfl
    | ok loc =>
      simp only
      rw [(hl.locate_plain hp hloc).1, hway (List.prefix_refl _)]
  unfold ensureDirectory
  rw [makeDirectory_set hl hp haside, hisdir]
  cases fs.makeDirectory p with
  | ok added => rfl
  | error fault =>
    cases fault with
    | nulInPath => rfl
    | tooNested reason =>
      cases fs.isDirectory p with
      | error other => rfl
      | ok isDir => cases isDir <;> rfl
    | obstructed obstacle there =>
      cases obstacle <;> simp only [Except.map] <;>
        cases fs.isDirectory p with
        | error other => rfl
        | ok isDir => cases isDir <;> rfl

theorem makeDirectoriesTo_set (n : Nat) :
    (fs.set q e).makeDirectoriesTo p n =
      ((fs.makeDirectoriesTo p n).1, (fs.makeDirectoriesTo p n).2.set q e) := by
  induction n with
  | zero => rfl
  | succ n ih =>
    have hshort : ¬ q <+: (p.take (n + 1)).names :=
      fun hpre => haside (hpre.trans (List.take_prefix _ _))
    have hensure : ∀ {mid : FileSystem}, mid.LinkFree →
        (mid.set q e).ensureDirectory (p.take (n + 1)) =
          (mid.ensureDirectory (p.take (n + 1))).map (·.set q e) :=
      fun hmid => ensureDirectory_set hmid (hp.take (n + 1)) hshort
    have habove : (fs.makeDirectoriesTo p n).2.LinkFree :=
      ((made_makeDirectoriesTo fs p n).grown hl hp (List.prefix_refl _)).1
    rw [makeDirectoriesTo, makeDirectoriesTo, hensure hl, ih]
    generalize fs.makeDirectoriesTo p n = part at habove
    obtain ⟨result, above⟩ := part
    cases fs.ensureDirectory (p.take (n + 1)) with
    | ok added => rfl
    | error fault =>
      cases fault with
      | nulInPath | tooNested => rfl
      | obstructed obstacle there =>
        cases obstacle with
        | notFound =>
          cases result with
          | error other => rfl
          | ok u =>
            simp only [Except.map, hensure habove]
            cases above.ensureDirectory (p.take (n + 1)) <;> rfl
        | _ => rfl

theorem waiting_set (n : Nat) : (fs.set q e).waiting p n = fs.waiting p n := by
  induction n with
  | zero => rfl
  | succ n ih =>
    have hshort : ¬ q <+: (p.take (n + 1)).names :=
      fun hpre => haside (hpre.trans (List.take_prefix _ _))
    rw [waiting, waiting, ensureDirectory_set hl (hp.take (n + 1)) hshort, ih]
    cases fs.ensureDirectory (p.take (n + 1)) with
    | ok added => rfl
    | error fault => cases fault <;> rfl

theorem makeDirectories_set (limit : CallLimit) :
    (fs.set q e).makeDirectories limit p =
      ((fs.makeDirectories limit p).1, (fs.makeDirectories limit p).2.set q e) := by
  by_cases hdeep : fs.TooDeep limit p
  · have hdeep' : (fs.set q e).TooDeep limit p := by
      rwa [TooDeep, waiting_set hl hp haside]
    rw [makeDirectories_of_tooDeep hdeep, makeDirectories_of_tooDeep hdeep']
  · have hdeep' : ¬ (fs.set q e).TooDeep limit p := by
      rwa [TooDeep, waiting_set hl hp haside]
    rw [makeDirectories_of_not_tooDeep hdeep, makeDirectories_of_not_tooDeep hdeep']
    exact makeDirectoriesTo_set hl hp haside _

theorem write_set :
    (fs.set q e).write p content = (fs.write p content).map (·.set q e) := by
  have hway : ∀ {way}, way <+: p.names → (fs.set q e).entryAt way = fs.entryAt way :=
    fun hpre => entryAt_set_of_prefix haside hpre
  unfold write
  rw [arriveToWrite_congr hl hp hway]
  cases harrive : fs.arriveToWrite p with
  | error fault => rfl
  | ok place =>
    have hdescend := hl.descend_of_followToWrite (arriveToWrite_ok harrive).2
    rw [start, if_pos hp.absolute] at hdescend
    have hplace : place.location = p.names := (descend_plain hp.entryNames hdescend).1
    cases place with
    | vacant d name =>
      change d ++ [name] = p.names at hplace
      simp only [hplace]
      exact congrArg Except.ok (set_set_of_aside haside _)
    | found loc =>
      change loc = p.names at hplace
      simp only [hplace, hway (List.prefix_refl _)]
      cases fs.entryAt p.names with
      | none => rfl
      | some there =>
        cases there with
        | directory => rfl
        | link target => rfl
        | file old => exact congrArg Except.ok (set_set_of_aside haside _)

end

end ResourceAccessors.FileSystem
