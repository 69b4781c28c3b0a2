import ResourceAccessors.FileSystem.Access

/-! Trees of entries, and what looking up a path in one can come to. In a tree every entry stands
in a directory and the process works in one; a walk that starts in a directory of a tree therefore
only ever stands in directories. A file system keeps the entries of another if what was there is
still there and of the same kind; every walk that reached an entry then reaches it again. -/
namespace ResourceAccessors
set_option autoImplicit false

/-- Whether two entries are of one kind: links are only if they have one target. -/
def Entry.SameKind : Entry → Entry → Prop
  | .file _, .file _ | .directory, .directory => True
  | .link s, .link t => s = t
  | _, _ => False

theorem Entry.SameKind.refl (e : Entry) : e.SameKind e := by
  cases e <;> simp [SameKind]

theorem Entry.SameKind.trans {a b c : Entry} (hab : a.SameKind b) (hbc : b.SameKind c) :
    a.SameKind c := by
  cases a <;> cases b <;> cases c <;> simp_all [SameKind]

/-- The location of a place, whether there is an entry or not. -/
def Place.location : Place → Location
  | found loc => loc
  | vacant dir name => dir ++ [name]

namespace FileSystem

structure IsTree (fs : FileSystem) : Prop where
  parent : ∀ {loc e}, fs.entryAt loc = some e → fs.entryAt loc.dropLast = some .directory
  working : fs.entryAt fs.workingDirectory = some .directory

/-- What was there is still there and of the same kind, and so are the surroundings. -/
structure Keeps (fs after : FileSystem) : Prop where
  entry : ∀ {loc e}, fs.entryAt loc = some e → ∃ e', after.entryAt loc = some e' ∧ e.SameKind e'
  working : after.workingDirectory = fs.workingDirectory
  limits : after.limits = fs.limits

theorem ne_nil_of_free {fs : FileSystem} {loc : Location} (hfree : fs.entryAt loc = none) :
    loc ≠ [] := by
  rintro rfl
  simp at hfree

namespace Keeps

variable {fs mid after : FileSystem} {loc : Location}

theorem refl (fs : FileSystem) : fs.Keeps fs :=
  ⟨fun h => ⟨_, h, .refl _⟩, rfl, rfl⟩

theorem trans (h1 : fs.Keeps mid) (h2 : mid.Keeps after) : fs.Keeps after := by
  refine ⟨fun {loc e} h => ?_, h2.working.trans h1.working, h2.limits.trans h1.limits⟩
  obtain ⟨e1, he1, hk1⟩ := h1.entry h
  obtain ⟨e2, he2, hk2⟩ := h2.entry he1
  exact ⟨e2, he2, hk1.trans hk2⟩

theorem directory (h : fs.Keeps after) (hd : fs.entryAt loc = some .directory) :
    after.entryAt loc = some .directory := by
  obtain ⟨e, he, hk⟩ := h.entry hd
  cases e <;> simp_all [Entry.SameKind]

theorem directory_iff {e : Entry} (h : fs.Keeps after) (he : fs.entryAt loc = some e) :
    after.entryAt loc = some .directory ↔ fs.entryAt loc = some .directory := by
  obtain ⟨e', he', hkind⟩ := h.entry he
  rw [he, he']
  cases e <;> cases e' <;> simp_all [Entry.SameKind]

theorem link {target : String} (h : fs.Keeps after) (hl : fs.entryAt loc = some (.link target)) :
    after.entryAt loc = some (.link target) := by
  obtain ⟨e, he, hk⟩ := h.entry hl
  cases e <;> simp_all [Entry.SameKind]

theorem file {content : List UInt8} (h : fs.Keeps after)
    (hf : fs.entryAt loc = some (.file content)) :
    ∃ now, after.entryAt loc = some (.file now) := by
  obtain ⟨e, he, hk⟩ := h.entry hf
  cases e <;> simp_all [Entry.SameKind]

theorem set_free {e : Entry} (hfree : fs.entryAt loc = none) : fs.Keeps (fs.set loc e) := by
  have hloc := ne_nil_of_free hfree
  refine ⟨fun {l e'} h => ⟨e', ?_, .refl e'⟩, rfl, rfl⟩
  have hne : l ≠ loc := by
    rintro rfl
    simp [hfree] at h
  rw [entryAt_set _ _ _ _ hloc, if_neg hne, h]

theorem set_file {old new : List UInt8} (hfile : fs.entryAt loc = some (.file old)) :
    fs.Keeps (fs.set loc (.file new)) := by
  have hloc : loc ≠ [] := by
    rintro rfl
    simp at hfile
  refine ⟨fun {l e} h => ?_, rfl, rfl⟩
  rw [entryAt_set _ _ _ _ hloc]
  by_cases hl : l = loc
  · subst hl
    rw [hfile, Option.some.injEq] at h
    exact ⟨.file new, if_pos rfl, h ▸ trivial⟩
  · exact ⟨e, by rw [if_neg hl, h], .refl e⟩

end Keeps

/-! ## Walks in a tree -/

variable {fs after : FileSystem} {dir : Location} {names : List String} {place : Place}

theorem IsTree.directory_dropLast (h : fs.IsTree) (hd : fs.entryAt dir = some .directory) :
    fs.entryAt dir.dropLast = some .directory :=
  h.parent hd

/-- An entry below a location has a directory there to be in. -/
theorem IsTree.directory_of_append (htree : fs.IsTree) (name : String) (names : List String)
    (h : (fs.entryAt (dir ++ name :: names)).isSome = true) : fs.entryAt dir = some .directory := by
  induction names generalizing dir name with
  | nil =>
    obtain ⟨e, he⟩ := Option.isSome_iff_exists.1 h
    have hparent := htree.parent he
    rwa [List.dropLast_concat] at hparent
  | cons next more ih =>
    have hnext : fs.entryAt (dir ++ [name]) = some .directory := by
      refine ih next ?_
      rwa [List.append_assoc]
    have hparent := htree.parent hnext
    rwa [List.dropLast_concat] at hparent

theorem IsTree.directory_of_prefix {loc above : Location} {e : Entry} (htree : fs.IsTree)
    (he : fs.entryAt loc = some e) (h : above <+: loc) (hne : above ≠ loc) :
    fs.entryAt above = some .directory := by
  obtain ⟨rest, rfl⟩ := h
  cases rest with
  | nil => simp at hne
  | cons name names => exact htree.directory_of_append name names (by rw [he]; rfl)

/-- There is nothing below a location that is free. -/
theorem IsTree.free_of_prefix {loc above : Location} (htree : fs.IsTree)
    (hfree : fs.entryAt above = none) (h : above <+: loc) : fs.entryAt loc = none := by
  cases he : fs.entryAt loc with
  | none => rfl
  | some e =>
    by_cases hne : above = loc
    · rw [← hne, hfree] at he
      simp at he
    · rw [htree.directory_of_prefix he h hne] at hfree
      simp at hfree

theorem IsTree.directory_start (h : fs.IsTree) (p : Path) :
    fs.entryAt (fs.start p) = some .directory := by
  unfold start
  split
  · exact entryAt_nil fs
  · exact h.working

theorem directory_targetStart (hd : fs.entryAt dir = some .directory) (target : String) :
    fs.entryAt (targetStart dir target) = some .directory := by
  unfold targetStart
  split
  · exact entryAt_nil fs
  · exact hd

/-- A place as a walk gives it: an entry that is no link, or a free name of a directory. -/
def Reached (fs : FileSystem) : Place → Prop
  | .found loc => ∃ e, fs.entryAt loc = some e ∧ ∀ target, e ≠ .link target
  | .vacant dir name =>
    fs.entryAt dir = some .directory ∧ fs.entryAt (dir ++ [name]) = none ∧
      name.utf8ByteSize ≤ maxNameBytes

/-- What a walk through directories gives: a place, or a link met in a directory. -/
def Descended (fs : FileSystem) : Descent → Prop
  | .at place => fs.Reached place
  | .link dir _ _ => fs.entryAt dir = some .directory
  | .blocked _ => True

theorem IsTree.descended (h : fs.IsTree) (hd : fs.entryAt dir = some .directory)
    (names : List String) :
    fs.Descended (fs.descend dir names) := by
  fun_induction descend fs dir names with
  | case1 dir => exact ⟨_, hd, by simp⟩
  | case2 dir rest ih => exact ih hd
  | case3 dir rest _ ih => exact ih (h.directory_dropLast hd)
  | case4 => trivial
  | case5 dir name rest _ _ hsize hnone => exact ⟨hd, hnone, Nat.le_of_not_lt hsize⟩
  | case6 => trivial
  | case7 dir name rest _ _ _ hdir ih => exact ih hdir
  | case8 dir name rest _ _ _ content hfile => exact ⟨_, hfile, by simp⟩
  | case9 => trivial
  | case10 => exact hd

theorem IsTree.reached_of_follow {links : Nat} {slashed : Bool} {arrival : Arrival} (h : fs.IsTree)
    (hd : fs.entryAt dir = some .directory)
    (hf : fs.follow links slashed dir names = .ok arrival) : fs.Reached arrival.place := by
  induction links generalizing slashed dir names with
  | zero =>
    unfold follow at hf
    have hs := h.descended hd names
    split at hf <;> simp_all [Descended]
    subst hf
    exact hs
  | succ links ih =>
    unfold follow at hf
    have hs := h.descended hd names
    split at hf
    · next place hp =>
      rw [hp] at hs
      simp only [Except.ok.injEq] at hf
      exact hf ▸ hs
    · simp at hf
    · next d target rest hp =>
      rw [hp] at hs
      exact ih (directory_targetStart hs target) hf

end FileSystem

end ResourceAccessors
