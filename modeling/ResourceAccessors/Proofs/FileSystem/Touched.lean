import ResourceAccessors.Proofs.FileSystem.Plain

/-! What may have been touched, links or not. Files are written where a path leads to, links
followed; directories are added where a path names one, in the directory that its last name is
looked up in. Both are said of the later file system: as entries are kept, a path leads to and
names there what it did when the change was made. -/
namespace ResourceAccessors.FileSystem
set_option autoImplicit false

variable {fs mid after : FileSystem} {p : Path} {loc dir : Location} {name : String}
  {place : Place} {bytes : List UInt8}

/-- A path names the location of its last name in the directory that this is looked up in. A link
that is there is not followed. -/
def Names (fs : FileSystem) (p : Path) (loc : Location) : Prop :=
  ∃ dir name, fs.holder p = .ok dir ∧ p.names.getLast? = some name ∧ loc = dir ++ [name]

theorem Keeps.holder (h : fs.Keeps after) (hd : fs.holder p = .ok dir) :
    after.holder p = .ok dir := by
  unfold FileSystem.holder followToDirectory at hd ⊢
  rw [h.start]
  split at hd
  · simp at hd
  · simp at hd
  · next found ends hf =>
    rw [h.follow_found hf]
    split at hd
    · next hdir =>
      rw [Except.ok.injEq] at hd
      subst hd
      simp only [h.directory hdir, if_true]
    · simp at hd

theorem Keeps.names (h : fs.Keeps after) (hn : fs.Names p loc) : after.Names p loc := by
  obtain ⟨dir, name, hd, hlast, heq⟩ := hn
  exact ⟨dir, name, h.holder hd, hlast, heq⟩

/-- Some paths may have been written to, and directories added that some paths name on their way.
Every other entry is as it was. -/
structure Touched (written ways : List Path) (fs after : FileSystem) : Prop where
  keeps : fs.Keeps after
  others : ∀ {loc e}, after.entryAt loc = some e → fs.entryAt loc ≠ some e →
    (∃ bytes p, e = .file bytes ∧ p ∈ written ∧ after.locate p = .ok loc) ∨
      (e = .directory ∧ fs.entryAt loc = none ∧
        ∃ p ∈ ways, ∃ n < p.names.length, after.Names (p.take n) loc)

namespace Touched

variable {written ways moreWritten moreWays : List Path}

theorem refl (written ways : List Path) (fs : FileSystem) : Touched written ways fs fs :=
  ⟨.refl fs, fun he hne => absurd he hne⟩

theorem mono (h : Touched written ways fs after) (hw : written ⊆ moreWritten)
    (hv : ways ⊆ moreWays) : Touched moreWritten moreWays fs after := by
  refine ⟨h.keeps, fun he hne => ?_⟩
  rcases h.others he hne with ⟨bytes, p, hfile, hp, hloc⟩ | ⟨hdir, hfree, p, hp, hn⟩
  · exact .inl ⟨bytes, p, hfile, hw hp, hloc⟩
  · exact .inr ⟨hdir, hfree, p, hv hp, hn⟩

theorem trans (h1 : Touched written ways fs mid) (h2 : Touched written ways mid after) :
    Touched written ways fs after := by
  refine ⟨h1.keeps.trans h2.keeps, fun {loc e} he hne => ?_⟩
  by_cases hmid : mid.entryAt loc = some e
  · rcases h1.others hmid hne with ⟨bytes, p, hfile, hp, hloc⟩ | ⟨hdir, hfree, p, hp, n, hn, hnames⟩
    · exact .inl ⟨bytes, p, hfile, hp, h2.keeps.locate hloc⟩
    · exact .inr ⟨hdir, hfree, p, hp, n, hn, h2.keeps.names hnames⟩
  · rcases h2.others he hmid with hfile | ⟨hdir, hfree, hway⟩
    · exact .inl hfile
    · refine .inr ⟨hdir, ?_, hway⟩
      cases hfs : fs.entryAt loc with
      | none => rfl
      | some old =>
        obtain ⟨e', he', -⟩ := h1.keeps.entry hfs
        simp [hfree] at he'

/-- Where nothing was written, every entry is as it was. -/
theorem entryAt_eq {e : Entry} (h : Touched [] ways fs after) (he : fs.entryAt loc = some e) :
    after.entryAt loc = some e := by
  obtain ⟨e', he', -⟩ := h.keeps.entry he
  by_cases hsame : fs.entryAt loc = some e'
  · rw [he', ← hsame, he]
  · rcases h.others he' hsame with ⟨bytes, p, -, hp, -⟩ | ⟨-, hfree, -⟩
    · simp at hp
    · simp [he] at hfree

/-- Where nothing was written, a file is one that was there. -/
theorem file_eq (h : Touched [] ways fs after) (hf : after.entryAt loc = some (.file bytes)) :
    fs.entryAt loc = some (.file bytes) := by
  refine Classical.byContradiction fun hne => ?_
  rcases h.others hf hne with ⟨bytes, p, -, hp, -⟩ | ⟨hdir, -, -⟩
  · simp at hp
  · simp at hdir

/-- Where nothing was written, what is new is a directory on the way, with nothing in it but such
directories. -/
theorem directory_of_new {e : Entry} {q : Path} (h : Touched [] [q] fs after) (htree : fs.IsTree)
    (he : after.entryAt loc = some e) (hfree : fs.entryAt loc = none) :
    e = .directory ∧ (∃ n < q.names.length, after.Names (q.take n) loc) ∧
      ∀ names below, after.entryAt (loc ++ names) = some below → below = .directory := by
  have hnew : ∀ {l e}, after.entryAt l = some e → fs.entryAt l = none →
      e = .directory ∧ ∃ n < q.names.length, after.Names (q.take n) l := by
    intro l e he hfree
    rcases h.others he (by simp [hfree]) with ⟨_, p, _, hp, _⟩ | ⟨hdir, _, p, hp, hn⟩
    · simp at hp
    · rw [List.mem_singleton] at hp
      exact ⟨hdir, hp ▸ hn⟩
  refine ⟨(hnew he hfree).1, (hnew he hfree).2, fun names below hbelow => ?_⟩
  exact (hnew hbelow (htree.free_of_prefix hfree (List.prefix_append loc names))).1

end Touched

theorem Added.names (h : fs.Added p after dir name) : fs.Names p (dir ++ [name]) :=
  ⟨dir, name, h.holder, h.last, rfl⟩

theorem Added.touched {q : Path} {n : Nat} (h : fs.Added (q.take n) after dir name)
    (hn : n < q.names.length) : Touched [] [q] fs after := by
  refine ⟨h.keeps, fun {loc e} he hne => .inr ?_⟩
  have heq := h.eq
  rw [heq, entryAt_set _ _ _ _ (by simp)] at he
  split at he
  · next hloc =>
    subst hloc
    rw [Option.some.injEq] at he
    exact ⟨he.symm, h.free, q, List.mem_singleton_self q, n, hn, h.keeps.names h.names⟩
  · exact absurd he hne

/-- The directories that are added above a path are named by the path on its way. -/
theorem Made.touched (h : Made p.parent fs after) : Touched [] [p] fs after := by
  induction h with
  | refl => exact .refl _ _ _
  | add n _ hmake ih =>
    obtain ⟨dir, name, ha⟩ := added_of_makeDirectory hmake
    have hne : p.names ≠ [] := by
      intro hnil
      have hlast := ha.last
      simp [Path.take, Path.parent, hnil] at hlast
    have hpos : 0 < p.names.length := List.length_pos_iff.2 hne
    have htake : p.parent.take n = p.take (min n (p.names.length - 1)) := by
      simp only [Path.take, Path.parent, List.dropLast_eq_take, List.take_take]
    rw [htake] at ha
    exact ih.trans (ha.touched (by omega))

theorem Written.touched (h : fs.Written p bytes after place) (htree : fs.IsTree) :
    Touched [p] [p] fs after := by
  refine ⟨h.keeps htree, fun {loc e} he hne => .inl ?_⟩
  have hthere := h.entryAt_location
  by_cases hloc : loc = place.location
  · subst hloc
    rw [hthere, Option.some.injEq] at he
    exact ⟨bytes, p, he.symm, List.mem_singleton_self p, h.locate htree⟩
  · have hne' : place.location ≠ [] := by
      intro hnil
      rw [hnil, entryAt_nil] at hthere
      simp at hthere
    rw [h.eq, entryAt_set _ _ _ _ hne', if_neg hloc] at he
    exact absurd he hne

end ResourceAccessors.FileSystem
