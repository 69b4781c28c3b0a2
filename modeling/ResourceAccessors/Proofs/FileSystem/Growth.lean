import ResourceAccessors.Proofs.FileSystem.Walk

/-! What the two changes do. Adding directories makes directories at free names of directories and
nothing else, also where it stops at an obstacle; writing a file makes one entry that file, which
was free or a file before. Both keep what was there, and a tree stays a tree. A file that was
written is the one that its path leads to from then on. -/
namespace ResourceAccessors.FileSystem
set_option autoImplicit false

variable {fs mid after : FileSystem} {p : Path} {loc dir : Location} {name : String}

/-! ## One entry more -/

theorem isTree_empty (limits : Limits) : (empty limits).IsTree := by
  refine ⟨fun {loc e} h => ?_, entryAt_nil _⟩
  by_cases hloc : loc = []
  · subst hloc
    exact entryAt_nil _
  · simp [empty, entryAt, hloc] at h

theorem IsTree.set_child {e : Entry} (h : fs.IsTree) (hd : fs.entryAt dir = some .directory)
    (hfree : fs.entryAt (dir ++ [name]) = none) : (fs.set (dir ++ [name]) e).IsTree := by
  have hk : fs.Keeps (fs.set (dir ++ [name]) e) := Keeps.set_free hfree
  refine ⟨fun {l e'} hl => ?_, hk.directory h.working⟩
  rw [entryAt_set _ _ _ _ (by simp)] at hl
  split at hl
  · next heq =>
    subst heq
    rw [List.dropLast_concat]
    exact hk.directory hd
  · exact hk.directory (h.parent hl)

theorem IsTree.set_file {old new : List UInt8} (h : fs.IsTree)
    (hfile : fs.entryAt loc = some (.file old)) : (fs.set loc (.file new)).IsTree := by
  have hk : fs.Keeps (fs.set loc (.file new)) := Keeps.set_file hfile
  have hloc : loc ≠ [] := by
    rintro rfl
    simp at hfile
  refine ⟨fun {l e'} hl => ?_, hk.directory h.working⟩
  rw [entryAt_set _ _ _ _ hloc] at hl
  split at hl
  · next heq => exact hk.directory (h.parent (heq ▸ hfile))
  · exact hk.directory (h.parent hl)

/-! ## Directories -/

theorem entryAt_holder (h : fs.holder p = .ok dir) : fs.entryAt dir = some .directory := by
  unfold holder followToDirectory at h
  split at h
  · simp at h
  · simp at h
  · split at h
    · next hd =>
      simp only [Except.ok.injEq] at h
      exact h ▸ hd
    · simp at h

/-- Adding one directory that did not fail. -/
structure Added (fs : FileSystem) (p : Path) (after : FileSystem) (dir : Location) (name : String) :
    Prop where
  looked : checkPath p = .ok ()
  holder : fs.holder p = .ok dir
  last : p.names.getLast? = some name
  climbs : name ≠ ".."
  fits : name.utf8ByteSize ≤ maxNameBytes
  free : fs.entryAt (dir ++ [name]) = none
  eq : after = fs.set (dir ++ [name]) .directory

theorem added_of_makeDirectory (h : fs.makeDirectory p = .ok after) :
    ∃ dir name, fs.Added p after dir name := by
  unfold makeDirectory at h
  split at h
  · simp at h
  · next hlooked =>
    split at h
    · simp at h
    · next dir hholder =>
      split at h
      · simp at h
      · simp at h
      · next name hclimbs hlast =>
        split at h
        · simp at h
        · next hfits =>
          split at h
          · simp at h
          · next hfree =>
            simp only [Except.ok.injEq] at h
            exact ⟨dir, name, hlooked, hholder, hlast, hclimbs, Nat.le_of_not_lt hfits, hfree,
              h.symm⟩

theorem Added.keeps (h : fs.Added p after dir name) : fs.Keeps after :=
  h.eq ▸ Keeps.set_free h.free

theorem Added.isTree (h : fs.Added p after dir name) (htree : fs.IsTree) : after.IsTree :=
  h.eq ▸ htree.set_child (entryAt_holder h.holder) h.free

theorem ensureDirectory_ok (h : fs.ensureDirectory p = .ok after) :
    after = fs ∨ fs.makeDirectory p = .ok after := by
  unfold ensureDirectory at h
  split at h
  · next added hm =>
    simp only [Except.ok.injEq] at h
    exact .inr (h ▸ hm)
  · simp at h
  · simp at h
  · split at h
    · simp only [Except.ok.injEq] at h
      exact .inl h.symm
    · simp at h
    · simp at h

/-- Directories that a path names on its way were added, one after another. -/
inductive Made (p : Path) : FileSystem → FileSystem → Prop
  | refl (fs : FileSystem) : Made p fs fs
  | add {fs mid after : FileSystem} (n : Nat) : Made p fs mid →
      mid.makeDirectory (p.take n) = .ok after → Made p fs after

theorem Made.ensure {n : Nat} (h : Made p fs mid)
    (he : mid.ensureDirectory (p.take n) = .ok after) : Made p fs after := by
  rcases ensureDirectory_ok he with rfl | hm
  · exact h
  · exact .add n h hm

theorem made_makeDirectoriesTo (fs : FileSystem) (p : Path) (n : Nat) :
    Made p fs (fs.makeDirectoriesTo p n).2 := by
  induction n with
  | zero => exact .refl fs
  | succ n ih =>
    unfold makeDirectoriesTo
    split
    · next added he => exact (Made.refl fs).ensure he
    · split
      · next partway hpart =>
        rw [hpart] at ih
        exact ih
      · next above habove =>
        rw [habove] at ih
        split
        · next added he => exact ih.ensure he
        · exact ih
    · exact .refl fs

/-- More directories of a path would wait for the one above them than may. -/
def TooDeep (fs : FileSystem) (limit : CallLimit) (p : Path) : Prop :=
  limit.calls < fs.waiting p p.names.length

instance (limit : CallLimit) (p : Path) : Decidable (fs.TooDeep limit p) :=
  inferInstanceAs (Decidable (_ < _))

variable {limit : CallLimit}

theorem makeDirectories_of_tooDeep (h : fs.TooDeep limit p) :
    fs.makeDirectories limit p = (.error (.tooNested limit.reason), fs) :=
  if_pos h

theorem makeDirectories_of_not_tooDeep (h : ¬ fs.TooDeep limit p) :
    fs.makeDirectories limit p = fs.makeDirectoriesTo p p.names.length :=
  if_neg h

theorem made_makeDirectories (fs : FileSystem) (limit : CallLimit) (p : Path) :
    Made p fs (fs.makeDirectories limit p).2 := by
  by_cases h : fs.TooDeep limit p
  · rw [makeDirectories_of_tooDeep h]
    exact .refl fs
  · rw [makeDirectories_of_not_tooDeep h]
    exact made_makeDirectoriesTo fs p _

theorem Made.keeps (h : Made p fs after) : fs.Keeps after := by
  induction h with
  | refl => exact .refl _
  | add n _ hm ih =>
    obtain ⟨dir, name, ha⟩ := added_of_makeDirectory hm
    exact ih.trans ha.keeps

theorem Made.isTree (h : Made p fs after) (htree : fs.IsTree) : after.IsTree := by
  induction h with
  | refl => exact htree
  | add n _ hm ih =>
    obtain ⟨dir, name, ha⟩ := added_of_makeDirectory hm
    exact ha.isTree ih

/-! ## Files -/

/-- Whether a file can be made at a place: it is free, or a file is there. -/
def Writable (fs : FileSystem) : Place → Prop
  | .found loc => ∃ old, fs.entryAt loc = some (.file old)
  | .vacant _ _ => True

/-- Writing a file that did not fail. -/
structure Written (fs : FileSystem) (p : Path) (bytes : List UInt8) (after : FileSystem)
    (place : Place) : Prop where
  arrived : fs.arriveToWrite p = .ok place
  writable : fs.Writable place
  eq : after = fs.set place.location (.file bytes)

variable {bytes : List UInt8} {place : Place}

theorem written_of_write (h : fs.write p bytes = .ok after) :
    ∃ place, fs.Written p bytes after place := by
  unfold write at h
  split at h
  · simp at h
  · next dir name harrived =>
    simp only [Except.ok.injEq] at h
    exact ⟨_, harrived, trivial, h.symm⟩
  · next loc harrived =>
    split at h
    · next old hold =>
      simp only [Except.ok.injEq] at h
      exact ⟨_, harrived, ⟨old, hold⟩, h.symm⟩
    · simp at h

theorem IsTree.reached_of_followToWrite {links : Nat} {names : List String} (h : fs.IsTree)
    (hd : fs.entryAt dir = some .directory)
    (hf : fs.followToWrite links dir names = .ok place) : fs.Reached place := by
  induction links generalizing dir names with
  | zero =>
    unfold followToWrite at hf
    have hs := h.descended hd names
    split at hf <;> simp_all [Descended]
  | succ links ih =>
    unfold followToWrite at hf
    have hs := h.descended hd names
    split at hf
    · next q hq =>
      rw [hq] at hs
      simp only [Except.ok.injEq] at hf
      exact hf ▸ hs
    · simp at hf
    · next d target rest hq =>
      rw [hq] at hs
      simp only at hf
      split at hf
      · split at hf <;> simp at hf
      · exact ih (directory_targetStart hs target) hf

theorem arriveToWrite_ok (h : fs.arriveToWrite p = .ok place) :
    checkPath p = .ok () ∧ fs.followToWrite maxLinks (fs.start p) p.names = .ok place := by
  unfold arriveToWrite at h
  split at h
  · simp at h
  · next hlooked =>
    split at h
    · simp at h
    · next q hq =>
      simp only [Except.ok.injEq] at h
      exact ⟨hlooked, h ▸ hq⟩

theorem Written.reached (h : fs.Written p bytes after place) (htree : fs.IsTree) :
    fs.Reached place :=
  htree.reached_of_followToWrite (htree.directory_start p) (arriveToWrite_ok h.arrived).2

theorem Written.keeps (h : fs.Written p bytes after place) (htree : fs.IsTree) : fs.Keeps after := by
  have hr := h.reached htree
  rw [h.eq]
  cases place with
  | found loc =>
    obtain ⟨old, hold⟩ := h.writable
    exact Keeps.set_file hold
  | vacant dir name => exact Keeps.set_free hr.2.1

theorem Written.isTree (h : fs.Written p bytes after place) (htree : fs.IsTree) :
    after.IsTree := by
  have hr := h.reached htree
  rw [h.eq]
  cases place with
  | found loc =>
    obtain ⟨old, hold⟩ := h.writable
    exact htree.set_file hold
  | vacant dir name => exact htree.set_child hr.1 hr.2.1

theorem Written.entryAt_location (h : fs.Written p bytes after place) :
    after.entryAt place.location = some (.file bytes) := by
  have hloc : place.location ≠ [] := by
    have hw := h.writable
    cases place with
    | found loc =>
      obtain ⟨old, hold⟩ := hw
      rintro rfl
      simp at hold
    | vacant dir name => simp [Place.location]
  rw [h.eq, entryAt_set _ _ _ _ hloc, if_pos rfl]

theorem Written.locate (h : fs.Written p bytes after place) (htree : fs.IsTree) :
    after.locate p = .ok place.location := by
  obtain ⟨hlooked, hf⟩ := arriveToWrite_ok h.arrived
  have hk := h.keeps htree
  have hfollow : after.follow maxLinks false (fs.start p) p.names =
      .ok ⟨.found place.location, false⟩ :=
    htree.follow_of_followToWrite hk (htree.directory_start p) hf h.entryAt_location
  simp only [FileSystem.locate, arrive, hlooked, hk.start, hfollow, Bool.false_and,
    Bool.false_eq_true, if_false]

/-! ## Writing below new directories -/

/-- Writes bytes, after adding the directories above the file. -/
def save (fs : FileSystem) (limit : CallLimit) (p : Path) (bytes : List UInt8) :
    Except FileFault Unit × FileSystem :=
  match fs.makeDirectories limit p.parent with
  | (.error fault, partway) => (.error fault, partway)
  | (.ok (), ready) =>
    match ready.write p bytes with
    | .error fault => (.error fault, ready)
    | .ok written => (.ok (), written)

theorem made_of_save_error {fault : FileFault}
    (h : fs.save limit p bytes = (.error fault, after)) : Made p.parent fs after := by
  have hmade := made_makeDirectories fs limit p.parent
  unfold save at h
  split at h
  · next hready =>
    rw [hready] at hmade
    exact (Prod.mk.inj h).2 ▸ hmade
  · next hready =>
    rw [hready] at hmade
    split at h
    · exact (Prod.mk.inj h).2 ▸ hmade
    · simp at h

theorem written_of_save (h : fs.save limit p bytes = (.ok (), after)) :
    ∃ ready place, Made p.parent fs ready ∧ ready.Written p bytes after place := by
  have hmade := made_makeDirectories fs limit p.parent
  unfold save at h
  split at h
  · simp at h
  · next ready hready =>
    rw [hready] at hmade
    split at h
    · simp at h
    · next written hwrite =>
      obtain ⟨place, hplace⟩ := written_of_write hwrite
      exact ⟨ready, place, hmade, (Prod.mk.inj h).2 ▸ hplace⟩

/-! ## Reading back -/

/-- What can be read is the content of the file that the path leads to. -/
theorem read_eq_ok_iff :
    fs.read p = .ok bytes ↔
      ∃ loc, fs.locate p = .ok loc ∧ fs.entryAt loc = some (.file bytes) := by
  constructor
  · intro h
    unfold read at h
    split at h
    · simp at h
    · next loc hloc =>
      split at h
      · next content hfile => exact ⟨loc, hloc, Except.ok.inj h ▸ hfile⟩
      all_goals simp at h
  · rintro ⟨loc, hloc, hfile⟩
    simp only [read, hloc, hfile]

theorem read_of_locate (hl : fs.locate p = .ok loc) (hf : fs.entryAt loc = some (.file bytes)) :
    fs.read p = .ok bytes :=
  read_eq_ok_iff.2 ⟨loc, hl, hf⟩

theorem hasEntry_of_locate {e : Entry} (hl : fs.locate p = .ok loc)
    (he : fs.entryAt loc = some e) : fs.hasEntry p = .ok true := by
  simp only [hasEntry, leadsTo, hl, he, Option.any_some]

end ResourceAccessors.FileSystem
